import TileRace.Proofs.Game.Dealing

namespace TileRace

theorem Board.Gains.length_le {b c : Board} {tile : Option Tile} (h : b.Gains tile c) :
    b.tiles.length ≤ c.tiles.length := by
  cases tile with
  | none => exact Nat.le_of_eq (congrArg (·.tiles.length) h.symm)
  | some tile =>
    obtain ⟨-, hhand, hplaced, -⟩ := h
    rw [tiles, tiles, hhand, hplaced]
    simp

namespace Game

variable {g g' : Game} {m : Message} {ms : List Message} {name x : String} {seat : Seat} {b : Board}
  {t : Turn} {r : Rejection}

def tileCount (g : Game) (name : String) : Nat := ((g.board? name).map (·.tiles.length)).getD 0

theorem tileCount_of_board? (h : g.board? name = some b) : g.tileCount name = b.tiles.length := by
  rw [tileCount, h]
  rfl

theorem tileCount_congr (h : g'.board? x = g.board? x) : g'.tileCount x = g.tileCount x := by
  rw [tileCount, h, tileCount]

theorem tileCount_of_seats (hs : g.seats.get? name = some seat)
    (hseats : g'.seats = (g.setBoard name b).seats) (x : String) :
    g'.tileCount x = if x = name then b.tiles.length else g.tileCount x := by
  have hboard : g'.board? x = if x = name then some b else g.board? x := by
    rw [board?, hseats]
    exact board?_setBoard hs b x
  split
  · rename_i hx
    exact tileCount_of_board? (hboard.trans (if_pos hx))
  · rename_i hx
    exact tileCount_congr (hboard.trans (if_neg hx))

theorem tileCount_setBoard_perm (hs : g.seats.get? name = some seat)
    (hb : b.tiles.Perm seat.board.tiles) (x : String) :
    (g.setBoard name b).tileCount x = g.tileCount x := by
  rw [tileCount_of_seats hs rfl]
  split
  · rename_i hx
    rw [hx, tileCount_of_board? (board?_of_seat hs), hb.length_eq]
  · rfl

theorem Snags.length_pool (h : g.Snags name t) :
    t.game.pool.length + min g.pool.length g.players.length = g.pool.length := by
  rw [h.pool, List.length_drop]
  omega

theorem Snags.tileCount_le (h : g.Snags name t) (hname : name ∈ g.players) (x : String) :
    g.tileCount x ≤ t.game.tileCount x := by
  by_cases hx : x ∈ g.players
  · obtain ⟨i, hi⟩ := List.getElem?_of_mem ((turns_perm hname).mem_iff.2 hx)
    obtain ⟨seat, b, hs, hs', hgains⟩ := h.seats i x hi
    rw [tileCount_of_board? (board?_of_seat hs), tileCount_of_board? (board?_of_seat hs')]
    exact hgains.length_le
  · have hnone : g.board? x = none := by rw [board?, Table.not_mem_keys.1 hx]; rfl
    rw [tileCount, hnone]
    exact Nat.zero_le _

theorem Sound.length_swapped (hg : g.Sound) (asks : g.Asks m .swapGameTile name seat) {tile : Tile}
    (remove : seat.board.remove tile = .ok b)
    (give : Game.give
      { g with
        pool := (g.shuffler.shuffle (g.pool ++ [tile])).1.drop swapDraw
        shuffler := (g.shuffler.shuffle (g.pool ++ [tile])).2 }
      name b ((g.shuffler.shuffle (g.pool ++ [tile])).1.take swapDraw) = .ok g') :
    g'.pool.length + min g.pool.length 2 = g.pool.length ∧
    ∀ x, g'.tileCount x =
      if x = name then g.tileCount x + min g.pool.length 2 else g.tileCount x := by
  have hshuffled := Shuffler.shuffle_perm g.shuffler (g.pool ++ [tile])
  obtain ⟨c, -, -, hperm, rfl⟩ := hg.of_give asks.seat remove hshuffled give
  have hlen : (g.shuffler.shuffle (g.pool ++ [tile])).1.length = g.pool.length + 1 :=
    hshuffled.length_eq.trans List.length_append
  have hall := hperm.length_eq
  rw [List.length_append, List.length_append, List.length_drop, hlen, swapDraw] at hall
  refine ⟨?_, fun x => ?_⟩
  · change (List.drop _ _).length + _ = _
    rw [List.length_drop, hlen, swapDraw]
    omega
  · refine Eq.trans (tileCount_of_seats asks.seat rfl x) ?_
    split
    · rename_i hx
      rw [tileCount_of_board? (hx ▸ asks.board?)]
      omega
    · rfl

/-- What one request does to the pool and to what the players own. -/
structure Spends (g : Game) (m : Message) (t : Turn) : Prop where
  pool : t.game.pool.length ≤ g.pool.length
  owned : ∀ x, g.tileCount x ≤ t.game.tileCount x
  swap : m.kind = .swapGameTile → (g.respond m).isOk → ∃ name, m.player = some name ∧
    t.game.pool.length + min g.pool.length 2 = g.pool.length ∧
    t.game.tileCount name = g.tileCount name + min g.pool.length 2
  snag : m.kind = .snagGameTile → (g.respond m).isOk →
    t.game.pool.length + min g.pool.length g.players.length = g.pool.length

theorem spends_of_kind (hswap : m.kind ≠ .swapGameTile) (hsnag : m.kind ≠ .snagGameTile)
    (hpool : t.game.pool.length ≤ g.pool.length)
    (howned : ∀ x, g.tileCount x ≤ t.game.tileCount x) : g.Spends m t :=
  ⟨hpool, howned, fun hk => (hswap hk).elim, fun hk => (hsnag hk).elim⟩

theorem Sound.spends_accepted (hg : g.Sound) (h : g.Accepted m t) : g.Spends m t := by
  cases h with
  | returned asks | deleted asks | started asks | won asks | chatted asks | refreshed asks =>
    exact spends_of_kind (by simp [asks.kind]) (by simp [asks.kind]) (Nat.le_refl _)
      fun x => Nat.le_refl _
  | @joined name b kind player absent =>
    refine spends_of_kind (by simp [kind]) (by simp [kind]) ?_ fun x => ?_
    · exact (List.drop_sublist _ _).length_le
    · have hboard := board?_joined { g with pool := g.pool.drop g.settings.handSize.toNat } name b
        m.socket x
      by_cases hx : x = name
      · have hnone : g.board? x = none := by rw [board?, hx, absent]; rfl
        rw [tileCount, hnone]
        exact Nat.zero_le _
      · exact Nat.le_of_eq (tileCount_congr (hboard.trans (if_neg hx))).symm
  | @snagged name seat g' dealt asks now pool check deal =>
    have hsnags := hg.snags asks deal
    have hlen := hsnags.length_pool
    exact ⟨by omega, hsnags.tileCount_le asks.mem_players, fun hk => (by cases hk.symm.trans asks.kind),
      fun _ _ => hlen⟩
  | @swapped name seat tile b g' asks now offer pool remove give =>
    obtain ⟨hlen, hcount⟩ := hg.length_swapped asks remove give
    refine ⟨by simp only [Game.swapped]; omega, fun x => ?_, fun _ _ => ⟨name, asks.player, hlen, ?_⟩,
      fun hk => (by cases hk.symm.trans asks.kind)⟩
    · rw [Game.swapped, hcount]
      split <;> omega
    · rw [Game.swapped, hcount, if_pos rfl]
  | moved asks now batch move =>
    refine spends_of_kind (by simp [asks.kind]) (by simp [asks.kind]) (Nat.le_refl _) fun x => ?_
    exact Nat.le_of_eq
      (tileCount_setBoard_perm asks.seat ((hg.boards asks.seat).move_perm move) x).symm
  | resized asks =>
    refine spends_of_kind (by simp [asks.kind]) (by simp [asks.kind]) (Nat.le_refl _) fun x => ?_
    exact Nat.le_of_eq
      (tileCount_setBoard_perm asks.seat ((hg.boards asks.seat).resize_perm _) x).symm

theorem Sound.spends (hg : g.Sound) (m : Message) : g.Spends m (g.handle m) := by
  cases h : g.respond m with
  | ok t =>
    rw [Game.handle, h]
    exact hg.spends_accepted (respond_ok h)
  | error r =>
    have hr := hg.rejected h
    rw [Game.handle, h]
    have hpool : r.game.pool = g.pool := by rw [hr.game_eq]
    refine ⟨Nat.le_of_eq (congrArg List.length hpool), fun x => ?_, fun _ hok => ?_, fun _ hok => ?_⟩
    · exact Nat.le_of_eq (tileCount_congr (hr.board? x)).symm
    · rw [h] at hok
      cases hok
    · rw [h] at hok
      cases hok

/-- A snag or a swap that is carried out. -/
def Draws (g : Game) (m : Message) : Prop :=
  (m.kind = .snagGameTile ∨ m.kind = .swapGameTile) ∧ (g.respond m).isOk

instance : Decidable (g.Draws m) := inferInstanceAs (Decidable (_ ∧ _))

def draws (g : Game) : List Message → Nat
  | [] => 0
  | m :: ms => (if g.Draws m then 1 else 0) + (g.handle m).game.draws ms

/-- The pool, and the hands that players took from it when they joined. -/
def stock (g : Game) : Nat := g.pool.length + g.settings.handSize.toNat * g.players.length

theorem Sound.draws_pos (hg : g.Sound) (h : g.Draws m) :
    (g.handle m).game.pool.length < g.pool.length := by
  obtain ⟨hk, hok⟩ := h
  have hspends := hg.spends m
  cases hr : g.respond m with
  | error r =>
    rw [hr] at hok
    cases hok
  | ok t =>
    cases respond_ok hr with
    | @snagged name seat g' dealt asks now pool =>
      have hlen := hspends.snag asks.kind hok
      have hpool := List.length_pos_iff.2 pool
      have hplayers := List.length_pos_of_mem asks.mem_players
      omega
    | swapped asks now offer pool =>
      obtain ⟨-, -, hlen, -⟩ := hspends.swap asks.kind hok
      have hpool := List.length_pos_iff.2 pool
      omega
    | joined kind => simp [kind] at hk
    | returned asks | deleted asks | started asks | won asks | moved asks | chatted asks
    | refreshed asks | resized asks => simp [asks.kind] at hk

theorem stock_congr (hpool : g'.pool = g.pool) (hsettings : g'.settings = g.settings)
    (hplayers : g'.players = g.players) : g'.stock = g.stock := by
  rw [stock, hpool, hsettings, hplayers, stock]

/-- Before a game starts, newcomers take their hands from the pool, and nobody else takes a tile. -/
theorem Sound.stock_notStarted (hg : g.Sound) (hnow : g.status = .notStarted) (m : Message) :
    ¬ g.Draws m ∧ (g.handle m).game.stock = g.stock := by
  have hidle : g.status ≠ .inProgress := by simp [hnow]
  rw [Draws, Game.handle]
  cases hr : g.respond m with
  | error r =>
    have hgame := (hg.rejected hr).game_eq
    have hpool : r.game.pool = g.pool := by rw [hgame]
    have hsettings : r.game.settings = g.settings := by rw [hgame]
    exact ⟨fun h => (by cases h.2),
      stock_congr hpool hsettings (stopped_of_error hr).redealt.players⟩
  | ok t =>
    cases respond_ok hr with
    | returned asks | deleted asks | started asks | chatted asks | refreshed asks =>
      exact ⟨by simp [asks.kind], rfl⟩
    | @joined name b kind player absent status room enough =>
      have hlen := length_keys_insert absent ⟨b, g.settings.prize⟩
      refine ⟨by simp [kind], ?_⟩
      simp only [stock, Game.joined, Game.players, List.length_drop, hlen, Nat.mul_succ]
      simp only [Table.keys, Table.size, List.length_map]
      omega
    | won asks game now => exact (hidle now).elim
    | snagged asks now => exact (hidle now).elim
    | swapped asks now => exact (hidle now).elim
    | moved asks now =>
      obtain now | now := now
      · exact (hidle now).elim
      · cases hnow.symm.trans now
    | resized asks => exact ⟨by simp [asks.kind], stock_congr rfl rfl (players_setBoard _ _ _)⟩

theorem Sound.stock_handle (hg : g.Sound) (m : Message) :
    (if g.Draws m then 1 else 0) + (g.handle m).game.stock ≤ g.stock := by
  by_cases hnow : g.status = .notStarted
  · obtain ⟨hdraws, hstock⟩ := hg.stock_notStarted hnow m
    exact Nat.le_of_eq (by rw [if_neg hdraws, hstock, Nat.zero_add])
  · have hpool := (hg.spends m).pool
    rw [stock, stock, players_handle hnow, hg.settings_handle]
    split
    · rename_i hdraws
      have hlt := hg.draws_pos hdraws
      omega
    · omega

theorem Sound.draws_add_stock_le (hg : g.Sound) (ms : List Message) :
    g.draws ms + (g.play ms).stock ≤ g.stock := by
  induction ms generalizing g with
  | nil => exact Nat.le_of_eq (Nat.zero_add _)
  | cons m ms ih =>
    have hstep := hg.stock_handle m
    have hrest := ih (hg.handle m)
    change (_ + _) + ((g.handle m).game.play ms).stock ≤ _
    omega

theorem status_of_play (ms : List Message) (h : (g.play ms).status = .notStarted) :
    g.status = .notStarted := by
  induction ms generalizing g with
  | nil => exact h
  | cons m ms ih => exact notStarted_of_handle (ih h)

theorem Sound.stock_play (hg : g.Sound) (h : (g.play ms).status = .notStarted) :
    (g.play ms).stock = g.stock := by
  induction ms generalizing g with
  | nil => rfl
  | cons m ms ih =>
    have hnow : g.status = .notStarted := status_of_play (m :: ms) h
    exact (ih (hg.handle m) h).trans (hg.stock_notStarted hnow m).2

theorem players_play (h : g.status ≠ .notStarted) (ms : List Message) :
    (g.play ms).players = g.players := by
  induction ms generalizing g with
  | nil => rfl
  | cons m ms ih => exact (ih fun hnext => h (notStarted_of_handle hnext)).trans (players_handle h m)

/-- A run falls into a part in which players join, and a part in which they play. -/
theorem exists_opening (hnow : g.status = .notStarted) (ms : List Message) :
    ∃ before after, ms = before ++ after ∧ (g.play before).status = .notStarted ∧
      (g.play before).players = (g.play ms).players := by
  induction ms generalizing g with
  | nil => exact ⟨[], [], rfl, hnow, rfl⟩
  | cons m ms ih =>
    by_cases hm : (g.handle m).game.status = .notStarted
    · obtain ⟨before, after, rfl, hbefore, hplayers⟩ := ih hm
      exact ⟨m :: before, after, rfl, hbefore, hplayers⟩
    · refine ⟨[], m :: ms, rfl, hnow, ?_⟩
      have hstart : (g.handle m).game.players = g.players := by
        cases g.progress m with
        | none redealt => exact redealt.players
        | joined now absent room coherent game =>
          rw [game] at hm
          exact (hm now).elim
        | started now game => rw [game]; rfl
        | won asks now next pool game => rw [game]; rfl
      exact (hstart.symm.trans (players_play hm ms).symm :)

/-- The pool only shrinks and hands only grow, so that no game can be drawn out for ever. -/
theorem play_bounded {id : GameId} {settings : Settings} {rules : Rules} {grid : Grid}
    {words : Dictionary} {createdAt : UInt64}
    (hn : (settings.letters.toList.filter Char.isAlpha).length < UInt32.size - 1)
    (h : setUp id settings rules grid words createdAt = .ok g) (ms : List Message) :
    (∀ m, (g.play ms).Spends m ((g.play ms).handle m)) ∧
    ∃ before after, ms = before ++ after ∧ (g.play before).status = .notStarted ∧
      (g.play before).players = (g.play ms).players ∧
      (g.play before).pool.length + settings.handSize.toNat * (g.play ms).players.length =
        (Tile.ofLetters settings.letters).length ∧
      g.draws ms + (g.play ms).pool.length ≤ (g.play before).pool.length := by
  have hg : g.Sound := .setUp hn h
  have hnew : g.status = .notStarted ∧ g.settings = settings ∧
      g.stock = (Tile.ofLetters settings.letters).length := by
    obtain rfl := setUp_eq_ok h
    exact ⟨rfl, rfl, (Shuffler.shuffle_perm _ _).length_eq⟩
  obtain ⟨hnow, hsettings, hstock⟩ := hnew
  refine ⟨(hg.play ms).spends, ?_⟩
  obtain ⟨before, after, hsplit, hbefore, hplayers⟩ := exists_opening hnow ms
  have hall := hg.stock_play hbefore
  have hdraws := hg.draws_add_stock_le ms
  refine ⟨before, after, hsplit, hbefore, hplayers, ?_, ?_⟩
  · rw [← hstock, ← hall, stock, settings_play, hsettings, hplayers]
  · rw [← hall, stock, stock, settings_play, settings_play, hplayers] at hdraws
    omega

theorem play_bounded_swapRun : ∃ g,
    ("CATDOGS".toList.filter Char.isAlpha).length < UInt32.size - 1 ∧
    setUp 1 { letters := "CATDOGS", handSize := 3 } .standard .standard ⟨["CAT"]⟩ 0 = .ok g ∧
    (∃ before after, swapRun = before ++ after ∧
      g.draws swapRun + (g.play swapRun).pool.length ≤ (g.play before).pool.length) ∧
    g.draws swapRun = 1 ∧ (g.play swapRun).pool = [] ∧ (g.play swapRun).tileCount "ann" = 4 := by
  have hn : ("CATDOGS".toList.filter Char.isAlpha).length < UInt32.size - 1 := by decide
  have h : setUp 1 { letters := "CATDOGS", handSize := 3 } .standard .standard ⟨["CAT"]⟩ 0 =
    .ok _ := rfl
  obtain ⟨-, before, after, hsplit, -, -, -, hdraws⟩ := play_bounded hn h swapRun
  exact ⟨_, hn, h, ⟨before, after, hsplit, hdraws⟩, rfl, rfl, rfl⟩

end Game

end TileRace
