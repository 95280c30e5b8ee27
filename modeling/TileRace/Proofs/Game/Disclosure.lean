import TileRace.Proofs.Game.Lifecycle
import TileRace.Proofs.Game.Session

namespace TileRace

def Message.shown (o : Message) : List Tile :=
  o.tiles.getD [] ++ (o.placements.getD []).map (·.tile)

/-- A message that tells of tiles, if only that there are none. -/
def Message.ShowsTiles (o : Message) : Prop := o.tiles.isSome ∨ o.placements.isSome

/-- Nothing of a board is in a message. -/
structure Message.Discreet (o : Message) : Prop where
  tiles : o.tiles = none
  placements : o.placements = none
  finalBoards : o.finalBoards = none

namespace Board

variable {b c : Board} {t : Tile}

theorem owned?_foldlM_add {ts : List Tile} (h : ts.foldlM add b = .ok c) :
    (∀ id t, b.owned? id = some t → c.owned? id = some t) ∧
    ∀ t ∈ ts, c.owned? t.id = some t := by
  induction ts generalizing b with
  | nil =>
    obtain rfl := pure_eq_ok.1 h
    exact ⟨fun _ _ h => h, nofun⟩
  | cons u ts ih =>
    rw [List.foldlM_cons, bind_eq_ok] at h
    obtain ⟨b', hb', h⟩ := h
    obtain ⟨hfree, rfl⟩ := add_eq_ok_iff.1 hb'
    obtain ⟨hkeep, hnew⟩ := ih h
    refine ⟨fun id t ht => hkeep id t ?_, fun t ht => ?_⟩
    · have hid : id ≠ u.id := fun he => by simp [he, hfree] at ht
      rwa [owned?_hold, if_neg hid]
    · obtain rfl | ht := List.mem_cons.1 ht
      · exact hkeep _ _ (by rw [owned?_hold, if_pos rfl])
      · exact hnew t ht

end Board

namespace Game

variable {g g' : Game} {m o : Message} {name x : String} {seat : Seat} {b : Board} {t : Turn}

/-- A player has a tile, in the hand or on the grid. -/
def Owns (g : Game) (name : String) (tile : Tile) : Prop :=
  ∃ b, g.board? name = some b ∧ tile ∈ b.tiles

theorem board?_eq_some : g.board? name = some b ↔
    ∃ seat, g.seats.get? name = some seat ∧ seat.board = b :=
  Option.map_eq_some_iff

theorem Orderly.coherent (hg : g.Orderly) (h : g.board? name = some b) : b.Coherent := by
  obtain ⟨seat, hs, rfl⟩ := board?_eq_some.1 h
  exact hg _ _ hs

theorem give_eq_ok {ts : List Tile} : g.give name b ts = .ok g' ↔
    ∃ c, ts.foldlM Board.add b = .ok c ∧ g' = g.setBoard name c := by
  constructor
  · intro h
    induction ts generalizing b with
    | nil => exact ⟨b, rfl, (Except.ok.inj h).symm⟩
    | cons u ts ih =>
      rw [give] at h
      split at h
      · cases h
      · rename_i c hc
        obtain ⟨d, hd, rfl⟩ := ih h
        exact ⟨d, by rw [List.foldlM_cons, hc]; exact hd, rfl⟩
  · rintro ⟨c, hc, rfl⟩
    exact give_of_foldlM hc

def Holds (g : Game) (name : String) (tile : Tile) : Prop :=
  ∃ b, g.board? name = some b ∧ b.owned? tile.id = some tile

theorem Holds.owns {tile : Tile} (h : g.Holds name tile) (hg : g.Orderly) : g.Owns name tile := by
  obtain ⟨b, hb, ht⟩ := h
  exact ⟨b, hb, (hg.coherent hb).mem_tiles.2 ht⟩

theorem holds_give {ts : List Tile} (hs : g.seats.get? name = some seat)
    (h : g.give name b ts = .ok g')
    (hb : ∀ id t, seat.board.owned? id = some t → b.owned? id = some t) :
    (∀ x t, g.Holds x t → g'.Holds x t) ∧ ∀ t ∈ ts, g'.Holds name t := by
  obtain ⟨c, hc, rfl⟩ := give_eq_ok.1 h
  obtain ⟨hkeep, hnew⟩ := Board.owned?_foldlM_add hc
  have hboard : (g.setBoard name c).board? name = some c := by rw [board?_setBoard hs, if_pos rfl]
  refine ⟨?_, fun t ht => ⟨c, hboard, hnew t ht⟩⟩
  rintro x t ⟨a, ha, ht⟩
  by_cases hx : x = name
  · subst hx
    rw [board?, hs] at ha
    obtain rfl := Option.some.inj ha
    exact ⟨c, hboard, hkeep _ _ (hb _ _ ht)⟩
  · exact ⟨a, by rw [board?_setBoard hs, if_neg hx]; exact ha, ht⟩

def dealOne (g : Game) (name : String) (tile : Tile) : Except Rejection Game :=
  match g.seats.get? name with
  | none => .ok g
  | some seat => g.give name seat.board [tile]

theorem deal_nil {names : List String} (h : g.pool = []) : g.deal names = .ok (g, []) := by
  cases names with
  | nil => rfl
  | cons n names => rw [deal, h]

theorem deal_cons {n : String} {names : List String} {tile : Tile} {pool : List Tile}
    (h : g.pool = tile :: pool) : g.deal (n :: names) = (do
      let g ← Game.dealOne { g with pool := pool } n tile
      let (g, dealt) ← g.deal names
      return (g, (n, tile) :: dealt)) := by
  rw [deal, h, dealOne]
  cases hs : g.seats.get? n <;> simp only [hs]

theorem players_dealOne {n : String} {tile : Tile} (h : g.dealOne n tile = .ok g') :
    g'.players = g.players := by
  rw [dealOne] at h
  split at h
  · rw [Except.ok.inj h]
  · obtain ⟨c, -, rfl⟩ := give_eq_ok.1 h
    exact players_setBoard g n c

theorem holds_dealOne {n : String} {tile : Tile} (h : g.dealOne n tile = .ok g') :
    (∀ x t, g.Holds x t → g'.Holds x t) ∧ (n ∈ g.players → g'.Holds n tile) := by
  rw [dealOne] at h
  split at h
  · rename_i hn
    obtain rfl := Except.ok.inj h
    exact ⟨fun _ _ h => h, fun hp => (Table.not_mem_keys.2 hn hp).elim⟩
  · rename_i seat hs
    obtain ⟨hkeep, hnew⟩ := holds_give hs h fun _ _ h => h
    exact ⟨hkeep, fun _ => hnew tile List.mem_cons_self⟩

theorem holds_deal {names : List String} {dealt : List (String × Tile)}
    (h : g.deal names = .ok (g', dealt)) :
    (∀ x t, g.Holds x t → g'.Holds x t) ∧
    ∀ x t, (x, t) ∈ dealt → x ∈ g.players → g'.Holds x t := by
  induction names generalizing g dealt with
  | nil =>
    obtain ⟨rfl, rfl⟩ := Prod.mk.inj (Except.ok.inj h)
    exact ⟨fun _ _ h => h, nofun⟩
  | cons n names ih =>
    cases hpool : g.pool with
    | nil =>
      rw [deal_nil hpool] at h
      obtain ⟨rfl, rfl⟩ := Prod.mk.inj (Except.ok.inj h)
      exact ⟨fun _ _ h => h, nofun⟩
    | cons tile pool =>
      rw [deal_cons hpool] at h
      simp only [bind_eq_ok, Prod.exists, pure_eq_ok] at h
      obtain ⟨g₁, hone, g₂, dealt', hd, he⟩ := h
      obtain ⟨rfl, rfl⟩ := Prod.mk.inj he
      obtain ⟨hkeep, hnew⟩ := ih hd
      obtain ⟨hkeep₁, hnew₁⟩ := holds_dealOne hone
      have hplayers : g₁.players = g.players :=
        (players_dealOne hone : g₁.players = Game.players { g with pool })
      refine ⟨fun x t hx => hkeep x t (hkeep₁ x t hx), fun x t hx hp => ?_⟩
      obtain hx | hx := List.mem_cons.1 hx
      · obtain ⟨rfl, rfl⟩ := Prod.mk.inj hx
        exact hkeep _ _ (hnew₁ hp)
      · exact hnew x t hx (hplayers ▸ hp)

/-- What a message of a game gives away: tiles to their owner, and all boards when the game is
over. -/
structure Discloses (g g' : Game) (o : Message) : Prop where
  own : o.ShowsTiles → ∃ x, o.player = some x ∧ (g'.board? x).isSome ∧ ∀ t ∈ o.shown, g'.Owns x t
  final : o.finalBoards.isSome → g.status = .inProgress ∧ g'.status ≠ .inProgress

theorem discloses_of_discreet (h : o.Discreet) : g.Discloses g' o where
  own hs := by simp [Message.ShowsTiles, h.tiles, h.placements] at hs
  final hf := by simp [h.finalBoards] at hf

theorem Discloses.withInfo {text : String} (h : g.Discloses g' o) :
    g.Discloses g' (o.withInfo text) :=
  ⟨h.own, h.final⟩

theorem discreet_infoChanged : g.infoChanged.Discreet := ⟨rfl, rfl, rfl⟩

theorem discreet_toAll {k : Kind} {f : String → Message → Message}
    (hf : ∀ x n, n.Discreet → (f x n).Discreet) (ho : o ∈ g.toAll k f) : o.Discreet := by
  obtain ⟨x, -, rfl⟩ := mem_toAll.1 ho
  exact hf _ _ ⟨rfl, rfl, rfl⟩

theorem discreet_withInfo {text : String} (h : o.Discreet) : (o.withInfo text).Discreet :=
  ⟨h.tiles, h.placements, h.finalBoards⟩

theorem discloses_boardMessage {k : Kind} {socket : Option SocketId} (hb : g'.board? x = some b) :
    g.Discloses g' (g'.boardMessage k x b socket) where
  own _ := ⟨x, rfl, by simp [hb], fun _ ht => ⟨b, hb, ht⟩⟩
  final hf := by cases hf

theorem Accepted.discloses (hg' : t.game.Orderly) (h : g.Accepted m t)
    (ho : o ∈ t.out) : g.Discloses t.game o := by
  cases h with
  | returned asks | refreshed asks =>
    rw [List.mem_singleton.1 ho]
    exact discloses_boardMessage asks.board?
  | joined =>
    obtain ho | ho := List.mem_append.1 ho
    · obtain rfl | ho := List.mem_cons.1 ho
      · exact discloses_boardMessage (by rw [board?_joined, if_pos rfl])
      · obtain ⟨x, -, rfl⟩ := List.mem_map.1 ho
        exact discloses_of_discreet ⟨rfl, rfl, rfl⟩
    · rw [List.mem_singleton.1 ho]
      exact discloses_of_discreet discreet_infoChanged
  | deleted | chatted =>
    exact discloses_of_discreet (discreet_toAll (fun _ _ hn => discreet_withInfo hn) ho)
  | started =>
    obtain ho | ho := List.mem_append.1 ho
    · refine discloses_of_discreet (discreet_toAll (fun _ _ hn => ?_) ho)
      exact ⟨hn.tiles, hn.placements, hn.finalBoards⟩
    · rw [List.mem_singleton.1 ho]
      exact discloses_of_discreet discreet_infoChanged
  | @won name seat wanted asks game now next =>
    obtain ho | ho := List.mem_append.1 ho
    · obtain ⟨x, -, rfl⟩ := mem_toAll.1 ho
      refine ⟨fun hs => ?_, fun _ => ⟨now, fun he => ?_⟩⟩
      · obtain h | h := hs <;> cases h
      · have he : wanted.status = .inProgress := he
        simp [he, Status.isFinished] at next
    · rw [List.mem_singleton.1 ho]
      exact discloses_of_discreet discreet_infoChanged
  | @snagged name seat g' dealt asks now pool check deal =>
    simp only [Game.snagged] at ho
    obtain ⟨x, hx, rfl⟩ := mem_toAll.1 ho
    have hplayers : g'.players = g.players := (costless_deal.1 _ deal).players
    obtain ⟨s, hs⟩ := Table.mem_keys.1 hx
    refine ⟨fun _ => ⟨x, rfl, by simp [Game.snagged, Game.board?, hs], fun u hu => ?_⟩,
      fun hf => by cases hf⟩
    have hu : u ∈ ((dealt.lookup x).map ([·])).getD [] := by
      simpa [Message.shown, Game.toPlayer, Message.withGameId, Message.forPlayer, Message.ofKind]
        using hu
    cases hl : dealt.lookup x with
    | none => simp [hl] at hu
    | some tile =>
      obtain rfl : u = tile := by simpa [hl] using hu
      obtain ⟨_, _, hd, -⟩ := List.lookup_eq_some_iff.1 hl
      have hdealt : (x, u) ∈ dealt := by simp [hd]
      exact ((holds_deal deal).2 x u hdealt (hplayers ▸ hx)).owns hg'
  | @swapped name seat tile board g' asks now offer pool remove give =>
    obtain rfl | ho := List.mem_cons.1 ho
    · obtain ⟨c, hc, rfl⟩ := give_eq_ok.1 give
      have hboard := board?_setBoard (g := { g with
        pool := (g.shuffler.shuffle (g.pool ++ [tile])).1.drop swapDraw
        shuffler := (g.shuffler.shuffle (g.pool ++ [tile])).2 }) asks.seat c name
      rw [if_pos rfl] at hboard
      refine ⟨fun _ => ⟨name, rfl, by simp [Game.swapped, hboard], fun u hu => ?_⟩,
        fun hf => by cases hf⟩
      have hu : u ∈ (g.shuffler.shuffle (g.pool ++ [tile])).1.take swapDraw := by
        simpa [Message.shown, Game.toPlayer, Message.withGameId, Message.forPlayer, Message.ofKind]
          using hu
      exact Holds.owns ⟨c, hboard, (Board.owned?_foldlM_add hc).2 u hu⟩ hg'
    · obtain ⟨x, -, rfl⟩ := List.mem_map.1 ho
      exact discloses_of_discreet ⟨rfl, rfl, rfl⟩
  | moved => cases ho
  | @resized name seat grid asks =>
    have hboard := board?_setBoard asks.seat (seat.board.resize grid).1 name
    rw [if_pos rfl] at hboard
    rw [List.mem_singleton.1 ho]
    split
    · exact discloses_boardMessage hboard
    · exact (discloses_boardMessage hboard).withInfo

/-- No request makes a game give away more than it should. -/
theorem Orderly.discloses_handle (hg : g.Orderly) (ho : o ∈ (g.handle m).out) :
    g.Discloses (g.handle m).game o := by
  have hg' : (g.handle m).game.Orderly := (progress g m).orderly hg
  rw [handle] at ho hg' ⊢
  cases hr : g.respond m with
  | ok t =>
    rw [hr] at ho hg'
    exact (respond_ok hr).discloses hg' ho
  | error r =>
    rw [hr] at ho
    rw [List.mem_singleton.1 ho]
    exact discloses_of_discreet ⟨rfl, rfl, rfl⟩

end Game

namespace Session

theorem act_discloses {s : Session} {now : Nat} {a : Act} {r : Result} {o : Message}
    (hs : s.game.Orderly) (h : s.act now a = some r) (ho : o ∈ r.out) :
    o.Discreet ∨ ∃ s', r.session = some s' ∧ s.game.Discloses s'.game o := by
  cases acts_act h with
  | handled act next keep lasts session out | failed act next late session out =>
    rw [out] at ho
    exact .inr ⟨_, session, hs.discloses_handle ho⟩
  | ended session ends out =>
    rw [out] at ho
    obtain ho | ho := List.mem_append.1 ho
    · cases ends with
      | deleted | idle =>
        exact .inl (Game.discreet_toAll (fun _ _ hn => Game.discreet_withInfo hn) ho)
      | halted => cases ho
    · rw [List.mem_singleton.1 ho]
      exact .inl ⟨rfl, rfl, rfl⟩

theorem act_orderly {s s' : Session} {now : Nat} {a : Act} {r : Result} (hs : s.game.Orderly)
    (h : s.act now a = some r) (hr : r.session = some s') : s'.game.Orderly := by
  cases acts_act h with
  | handled act next keep lasts session out | failed act next late session out =>
    rw [← Option.some.inj (session.symm.trans hr)]
    exact (Game.progress s.game _).orderly hs
  | ended session => cases session.symm.trans hr

theorem act_addressed {s : Session} {now : Nat} {a : Act} {r : Result} {o : Message}
    (h : s.act now a = some r) (ho : o ∈ r.out) (hp : o.player.isSome) :
    o.kind ≠ .gameInfoChanged ∧ o.kind ≠ .gameDeleted := by
  obtain ⟨out, g, htells, hend⟩ := act_tells h
  have htold (ho : o ∈ out) : o.kind ≠ .gameInfoChanged ∧ o.kind ≠ .gameDeleted := by
    refine ⟨fun hk => ?_, htells.lasting o ho⟩
    have hmem : o ∈ Game.announced out := List.mem_filter.2 ⟨ho, by simpa using hk⟩
    obtain ⟨hnone, -⟩ | hsome := htells.news
    · rw [hnone] at hmem
      cases hmem
    · rw [hsome] at hmem
      rw [List.mem_singleton.1 hmem] at hp
      cases hp
  obtain ⟨s', -, -, hout⟩ | ⟨-, hout⟩ := hend <;> rw [hout] at ho
  · exact htold ho
  · obtain ho | ho := List.mem_append.1 ho
    · exact htold ho
    · rw [List.mem_singleton.1 ho] at hp
      cases hp

end Session

end TileRace
