import TileRace.Proofs.Game.Atomic
import TileRace.Proofs.Game.Lifecycle

namespace TileRace

def Rules.worth (rules : Rules) (prize : UInt32) (failed : Nat) : Nat :=
  if rules.penalize then max 1 (prize.toNat - failed) else prize.toNat

variable {rules : Rules} {prize : UInt32}

theorem Rules.worth_zero (hprize : 1 ≤ prize.toNat) : rules.worth prize 0 = prize.toNat := by
  rw [worth]
  split
  · omega
  · rfl

theorem Rules.worth_lowered (hrule : rules.penalize) (failed : Nat) :
    rules.worth (Game.lowered prize) failed = rules.worth prize (1 + failed) := by
  rw [worth, if_pos hrule, Game.toNat_lowered, worth, if_pos hrule]
  omega

theorem Rules.worth_of_not_penalize (hrule : ¬ rules.penalize) (failed : Nat) :
    rules.worth prize failed = prize.toNat := if_neg hrule

theorem Rules.worth_bounds (hprize : 1 ≤ prize.toNat) (failed : Nat) :
    1 ≤ rules.worth prize failed ∧ rules.worth prize failed ≤ prize.toNat := by
  rw [worth]
  split <;> omega

namespace Game

variable {g g' : Game} {m : Message} {ms : List Message} {name x : String} {seat : Seat} {t : Turn}

/-- The board of a player is checked at the player's own request, and found wanting. -/
def Fails (g : Game) (m : Message) (name : String) : Prop := ∃ seat, g.FailsCheck m name seat

instance : Decidable (g.Checks m) :=
  decidable_of_iff
    (g.status = .inProgress ∧
      (m.kind = .snagGameTile ∧ g.pool ≠ [] ∧ g.rules.checkOnSnag ∨
        m.kind = .changeGameStatus ∧ g.pool = [] ∧ ∃ wanted ∈ m.game, wanted.status.isFinished))
    Iff.rfl

theorem fails_iff : g.Fails m name ↔ m.player = some name ∧ g.Checks m ∧
    ∃ seat ∈ g.seats.get? name, g.rules.check g.words seat.board ≠ .ok () :=
  ⟨fun ⟨seat, hf⟩ => ⟨hf.player, hf.asked, seat, hf.seated, hf.fails⟩,
    fun ⟨hp, hasked, seat, hs, hfails⟩ => ⟨seat, hp, hs, hasked, hfails⟩⟩

instance : Decidable (g.Fails m name) := decidable_of_iff _ fails_iff.symm

def failures (g : Game) (name : String) : List Message → Nat
  | [] => 0
  | m :: ms => (if g.Fails m name then 1 else 0) + (g.handle m).game.failures name ms

/-- The prize of a player, or what it will be at first if the player has not joined. -/
def stake (g : Game) (name : String) : UInt32 := (g.prize? name).getD g.settings.prize

theorem stake_of_seat (hs : g.seats.get? name = some seat) : g.stake name = seat.prize := by
  rw [stake, prize?, hs]
  rfl

theorem Costless.stake (h : g.Costless g') (x : String) : g'.stake x = g.stake x := by
  rw [Game.stake, h.prizes, h.settings, Game.stake]

theorem stake_setBoard (g : Game) (name : String) (b : Board) (x : String) :
    (g.setBoard name b).stake x = g.stake x := by
  rw [stake, prize?_setBoard]
  rfl

theorem stake_joined (absent : g.seats.get? name = none) (b : Board) (socket : Option SocketId)
    (x : String) : (g.joined name b socket).game.stake x = g.stake x := by
  change ((Table.get? (g.seats.insert name ⟨b, g.settings.prize⟩) x).map (·.prize)).getD _ = _
  rw [Table.get?_insert, stake, prize?]
  split
  · rename_i hx
    rw [hx, absent]
    rfl
  · rfl

theorem Accepted.stake (h : g.Accepted m t) (x : String) : t.game.stake x = g.stake x := by
  cases h with
  | returned | deleted | started | won | chatted | refreshed => rfl
  | joined kind player absent => exact stake_joined (g := { g with pool := _ }) absent _ m.socket x
  | snagged asks now pool check deal => exact (costless_snag.1 _ deal).stake x
  | swapped asks now offer pool remove give =>
    exact ((costless_swap asks.seat remove).1 _ give).stake x
  | moved | resized => exact stake_setBoard _ _ _ _

theorem FailsCheck.stake_penalized (h : g.FailsCheck m name seat) (x : String) :
    (g.penalized name).stake x =
      if g.rules.penalize ∧ g.Fails m x then lowered (g.stake x) else g.stake x := by
  have hsettings : (g.penalized name).settings = g.settings := (redealt_penalized g name).settings
  have hfails : g.Fails m x ↔ x = name :=
    ⟨fun ⟨_, hf⟩ => h.name_eq hf, fun hx => ⟨seat, hx ▸ h⟩⟩
  rw [if_congr (and_congr_right fun _ => hfails) rfl rfl, stake, hsettings, prize?,
    Game.get?_penalized]
  split
  · rename_i hx
    rw [hx.2, stake_of_seat h.seated, h.seated]
    rfl
  · rfl

theorem stake_handle (g : Game) (m : Message) (x : String) :
    (g.handle m).game.stake x =
      if g.rules.penalize ∧ g.Fails m x then lowered (g.stake x) else g.stake x := by
  have hkept (hpasses : ∀ name seat, ¬ g.FailsCheck m name seat) :
      ¬ (g.rules.penalize ∧ g.Fails m x) := fun ⟨_, seat, hf⟩ => hpasses x seat hf
  cases h : g.respond m with
  | ok t =>
    rw [handle, h, if_neg (hkept fun _ _ => (respond_ok h).passes)]
    exact (respond_ok h).stake x
  | error r =>
    have hgame : (g.handle m).game = r.game := by
      rw [handle, h]
      rfl
    obtain hr | hr := respond_error h
    · cases hr with
      | unchanged game passed => rw [hgame, game, if_neg (hkept passed)]
      | failed fails game => rw [hgame, game, fails.stake_penalized]
    · rw [hgame, hr.costless.stake, if_neg (hkept fun _ _ => hr.passes)]

theorem one_le_toNat_stake_handle (h : 1 ≤ (g.stake x).toNat) (m : Message) :
    1 ≤ ((g.handle m).game.stake x).toNat := by
  rw [stake_handle]
  split
  · rw [toNat_lowered]
    omega
  · exact h

theorem toNat_stake_play (h : 1 ≤ (g.stake x).toNat) (ms : List Message) :
    ((g.play ms).stake x).toNat = g.rules.worth (g.stake x) (g.failures x ms) := by
  induction ms generalizing g with
  | nil => exact (Rules.worth_zero h).symm
  | cons m ms ih =>
    have hrules := (g.progress m).rules
    refine (ih (one_le_toNat_stake_handle h m)).trans ?_
    rw [hrules, stake_handle, failures]
    by_cases hrule : g.rules.penalize
    · by_cases hf : g.Fails m x
      · rw [if_pos ⟨hrule, hf⟩, if_pos hf, Rules.worth_lowered hrule]
      · rw [if_neg fun hc => hf hc.2, if_neg hf, Nat.zero_add]
    · rw [if_neg fun hc => hrule hc.1, Rules.worth_of_not_penalize hrule,
        Rules.worth_of_not_penalize hrule]

theorem prize_of_setUp {id : GameId} {settings : Settings} {rules : Rules} {grid : Grid}
    {words : Dictionary} {createdAt : UInt64}
    (h : setUp id settings rules grid words createdAt = .ok g) : 1 ≤ settings.prize.toNat := by
  have hne : settings.prize ≠ 0 := by
    intro hzero
    simp only [setUp, hzero] at h
    split at h
    · cases h
    split at h
    · cases h
    · cases h
  exact Nat.pos_of_ne_zero fun hzero => hne (UInt32.toNat_inj.1 hzero)

/-- The prize of a player counts down the player's failed checks, and is what the winner earns. -/
theorem prize_counts {id : GameId} {settings : Settings} {rules : Rules} {grid : Grid}
    {words : Dictionary} {createdAt : UInt64}
    (h : setUp id settings rules grid words createdAt = .ok g) (ms : List Message) :
    (∀ name seat, (g.play ms).seats.get? name = some seat →
      seat.prize.toNat = rules.worth settings.prize (g.failures name ms)) ∧
    (∀ m name seat, (g.play ms).seats.get? name = some seat →
      ∃ seat', ((g.play ms).handle m).game.seats.get? name = some seat' ∧
        (¬ (rules.penalize ∧ (g.play ms).Fails m name) → seat'.prize = seat.prize)) ∧
    (∀ m award, ((g.play ms).handle m).award = some award →
      ∃ winner share, m.player = some winner ∧ award.get? winner = some share ∧
        share.toNat = rules.worth settings.prize (g.failures winner ms) ∧
        1 ≤ share.toNat ∧ share.toNat ≤ settings.prize.toNat) := by
  have hprize := prize_of_setUp h
  have hnew : g.rules = rules ∧ ∀ x, g.stake x = settings.prize := by
    obtain rfl := setUp_eq_ok h
    exact ⟨rfl, fun _ => rfl⟩
  obtain ⟨hrules, hstake⟩ := hnew
  have hcount {name seat} (hs : (g.play ms).seats.get? name = some seat) :
      seat.prize.toNat = rules.worth settings.prize (g.failures name ms) := by
    have hplay := toNat_stake_play (hstake name ▸ hprize) ms
    rwa [stake_of_seat hs, hrules, hstake] at hplay
  refine ⟨fun _ _ => hcount, fun m name seat hs => ?_, fun m award ha => ?_⟩
  · have hplayers := ((g.play ms).progress m).advances.players
    obtain ⟨seat', hs'⟩ := Table.mem_keys.1 (hplayers (Table.mem_keys.2 ⟨seat, hs⟩))
    refine ⟨seat', hs', fun hpasses => ?_⟩
    have hstep := (g.play ms).stake_handle m name
    rw [rules_play, hrules, if_neg hpasses] at hstep
    rwa [stake_of_seat hs, stake_of_seat hs'] at hstep
  · obtain ⟨winner, seat, hp, hs, -, hshares⟩ := ((g.play ms).progress m).advances.shares award ha
    have hshare := hshares winner seat hs
    rw [if_pos rfl] at hshare
    have hworth := hcount hs
    have hbounds := rules.worth_bounds hprize (g.failures winner ms)
    exact ⟨winner, seat.prize, hp, hshare, hworth, hworth ▸ hbounds⟩

/-- Twice too early, and then in time. -/
theorem prize_counts_finishing : ∃ g award, ∃ ms : List Message,
    setUp 1 { letters := "CATDOG", handSize := 3 } ⟨true, true, 2, true⟩ .standard ⟨["CAT"]⟩ 0 =
      .ok g ∧
    ((g.play ms).handle finishing).award = some award ∧ g.failures "ann" ms = 2 ∧
    (award.get? "ann").map (·.toNat) = some 8 := by
  have h : setUp 1 { letters := "CATDOG", handSize := 3 } ⟨true, true, 2, true⟩ .standard
    ⟨["CAT"]⟩ 0 = .ok _ := rfl
  obtain ⟨-, -, hawards⟩ := prize_counts h (opening ++ [finishing, finishing] ++ catRun.drop 3)
  obtain ⟨winner, share, hp, hshare, hworth, -⟩ := hawards finishing _ rfl
  obtain rfl : "ann" = winner := Option.some.inj hp
  refine ⟨_, _, opening ++ [finishing, finishing] ++ catRun.drop 3, h, rfl, rfl, ?_⟩
  rw [hshare]
  exact congrArg some hworth

end Game

end TileRace
