import TileRace.Proofs.Game.Progress

namespace TileRace

inductive Matches {ε α : Type} (S : ε → ε → Prop) (R : α → α → Prop) :
    Except ε α → Except ε α → Prop where
  | error {e e'} (h : S e e') : Matches S R (.error e) (.error e')
  | ok {a a'} (h : R a a') : Matches S R (.ok a) (.ok a')

section Matches

variable {ε ε' α β : Type} {S : ε → ε → Prop} {S' : ε' → ε' → Prop} {R : α → α → Prop}
  {T : β → β → Prop}

theorem Matches.bind {x x' : Except ε α} {f f' : α → Except ε β} (h : Matches S R x x')
    (hf : ∀ a a', R a a' → Matches S T (f a) (f' a')) : Matches S T (x >>= f) (x' >>= f') := by
  cases h with
  | error h => exact .error h
  | ok h => exact hf _ _ h

theorem Matches.mapError {x x' : Except ε α} {f f' : ε → ε'} (h : Matches S R x x')
    (hf : ∀ e e', S e e' → S' (f e) (f' e')) : Matches S' R (x.mapError f) (x'.mapError f') := by
  cases h with
  | error h => exact .error (hf _ _ h)
  | ok h => exact .ok h

theorem Matches.refl_error (x : Except ε Unit) : Matches Eq (fun _ _ => x = .ok ()) x x := by
  cases x with
  | error e => exact .error rfl
  | ok u => exact .ok rfl

end Matches

/-- The same tiles, laid out in another way only if they are the `own` ones. -/
structure Board.Rearranged (own : Prop) (b b' : Board) : Prop where
  left : b.Coherent
  right : b'.Coherent
  owned : ∀ id, b'.owned? id = b.owned? id
  same : ¬ own → b' = b

namespace Board

variable {own : Prop} {b b' b'' : Board} {t : Tile}

theorem Rearranged.refl (hb : b.Coherent) : b.Rearranged own b :=
  ⟨hb, hb, fun _ => rfl, fun _ => rfl⟩

theorem Rearranged.symm (h : b.Rearranged own b') : b'.Rearranged own b :=
  ⟨h.right, h.left, fun id => (h.owned id).symm, fun hn => (h.same hn).symm⟩

theorem Rearranged.trans (h : b.Rearranged own b') (h' : b'.Rearranged own b'') :
    b.Rearranged own b'' :=
  ⟨h.left, h'.right, fun id => (h'.owned id).trans (h.owned id),
    fun hn => (h'.same hn).trans (h.same hn)⟩

theorem Rearranged.hold (h : b.Rearranged own b') (ht : b.owned? t.id = none) :
    (b.hold t).Rearranged own (b'.hold t) where
  left := h.left.hold ht
  right := h.right.hold ((h.owned _).trans ht)
  owned id := by rw [owned?_hold, owned?_hold, h.owned]
  same hn := by rw [h.same hn]

theorem Rearranged.add (h : b.Rearranged own b') (t : Tile) :
    Matches Eq (Rearranged own) (b.add t) (b'.add t) := by
  rw [Board.add, Board.add, h.owned]
  split
  · exact .error rfl
  · rename_i ht
    exact .ok (h.hold (by simpa using ht))

theorem Rearranged.check (h : b.Rearranged own b') (t : Tile) : b'.check t = b.check t := by
  rw [Board.check, Board.check, h.owned]

theorem Rearranged.take (h : b.Rearranged own b') (id : TileId) :
    (b.take id).2.Rearranged own (b'.take id).2 where
  left := h.left.take id
  right := h.right.take id
  owned x := by rw [h.left.owned?_take, h.right.owned?_take, h.owned]
  same hn := by rw [h.same hn]

theorem Rearranged.remove (h : b.Rearranged own b') (t : Tile) :
    Matches Eq (Rearranged own) (b.remove t) (b'.remove t) := by
  rw [Board.remove, Board.remove, h.check]
  exact (Matches.refl_error (b.check t)).bind fun _ _ _ => .ok (h.take t.id)

theorem Rearranged.foldlM_add (h : b.Rearranged own b') (ts : List Tile) :
    Matches Eq (Rearranged own) (ts.foldlM Board.add b) (ts.foldlM Board.add b') := by
  induction ts generalizing b b' with
  | nil => exact .ok h
  | cons t ts ih =>
    rw [List.foldlM_cons, List.foldlM_cons]
    exact (h.add t).bind fun _ _ => ih

theorem rearranged_empty {grid grid' : Grid} (hn : ¬ own → grid' = grid) :
    (empty grid).Rearranged own (empty grid') where
  left := .empty grid
  right := .empty grid'
  owned _ := rfl
  same h := by rw [hn h]

end Board

structure Seat.Rearranged (own : Prop) (s s' : Seat) : Prop where
  prize : s'.prize = s.prize
  board : s.board.Rearranged own s'.board

theorem Seat.Rearranged.same {own : Prop} {s s' : Seat} (h : s.Rearranged own s') (hn : ¬ own) :
    s' = s := by
  obtain ⟨board, prize⟩ := s
  obtain ⟨board', prize'⟩ := s'
  rw [Seat.mk.injEq]
  exact ⟨h.board.same hn, h.prize⟩

/-- `g'` is `g` but for the way in which the player `p` has laid out the own tiles. -/
structure Game.Rearranged (p : String) (g g' : Game) : Prop where
  frame : g' = { g with seats := g'.seats }
  seats : ∀ x, Option.Rel (Seat.Rearranged (x = p)) (g.seats.get? x) (g'.seats.get? x)

structure Rejection.Rearranged (p : String) (r r' : Rejection) : Prop where
  refusal : r'.refusal = r.refusal
  game : r.game.Rearranged p r'.game

def messagesApart (p : String) (out : List Message) : List Message :=
  out.filter (·.player ≠ some p)

/-- Two turns that only `p` can tell apart, but for the boards that are shown at the end. -/
structure Turn.Rearranged (p : String) (t t' : Turn) : Prop where
  game : t.game.Rearranged p t'.game
  out : (∀ o ∈ t.out, o.finalBoards = none) → messagesApart p t'.out = messagesApart p t.out
  keep : t'.keep = t.keep
  award : t'.award = t.award

inductive Message.Rearranged (p : String) (m : Message) : Message → Prop where
  | same : m.Rearranged p m
  | moved (player : m.player = some p) (kind : m.kind = .moveGameTiles)
    (ps : Option (List Placement)) : m.Rearranged p { m with placements := ps }
  | gridded (player : m.player = some p) (kind : m.kind = .refreshGameBoard ∨ m.kind = .joinGame)
    (grid : Option Grid) : m.Rearranged p { m with grid := grid }

namespace Game

variable {p : String} {g g' g'' : Game} {name x : String} {b b' : Board}

theorem Rearranged.symm (h : g.Rearranged p g') : g'.Rearranged p g where
  frame := by rw [h.frame]
  seats x := by
    have hx := h.seats x
    generalize g.seats.get? x = s, g'.seats.get? x = s' at hx ⊢
    cases hx with
    | none => exact .none
    | some hs => exact .some ⟨hs.prize.symm, hs.board.symm⟩

theorem Rearranged.trans (h : g.Rearranged p g') (h' : g'.Rearranged p g'') :
    g.Rearranged p g'' where
  frame := by rw [h'.frame, h.frame]
  seats x := by
    have hx := h.seats x
    have hx' := h'.seats x
    generalize g.seats.get? x = s, g'.seats.get? x = s', g''.seats.get? x = s'' at hx hx' ⊢
    cases hx with
    | none =>
      cases hx' with
      | none => exact .none
    | some hs =>
      cases hx' with
      | some hs' => exact .some ⟨hs'.prize.trans hs.prize, hs.board.trans hs'.board⟩

theorem Rearranged.seat_cases (h : g.Rearranged p g') (x : String) :
    (g.seats.get? x = none ∧ g'.seats.get? x = none) ∨
    ∃ s s', g.seats.get? x = some s ∧ g'.seats.get? x = some s' ∧ s.Rearranged (x = p) s' := by
  have hx := h.seats x
  generalize g.seats.get? x = s, g'.seats.get? x = s' at hx ⊢
  cases hx with
  | none => exact .inl ⟨rfl, rfl⟩
  | some hs => exact .inr ⟨_, _, rfl, rfl, hs⟩

theorem Rearranged.id (h : g.Rearranged p g') : g'.id = g.id := by rw [h.frame]

theorem Rearranged.status (h : g.Rearranged p g') : g'.status = g.status := by rw [h.frame]

theorem Rearranged.pool (h : g.Rearranged p g') : g'.pool = g.pool := by rw [h.frame]

theorem Rearranged.shuffler (h : g.Rearranged p g') : g'.shuffler = g.shuffler := by rw [h.frame]

theorem Rearranged.settings (h : g.Rearranged p g') : g'.settings = g.settings := by rw [h.frame]

theorem Rearranged.rules (h : g.Rearranged p g') : g'.rules = g.rules := by rw [h.frame]

theorem Rearranged.words (h : g.Rearranged p g') : g'.words = g.words := by rw [h.frame]

theorem Rearranged.grid (h : g.Rearranged p g') : g'.grid = g.grid := by rw [h.frame]

theorem Rearranged.players (h : g.Rearranged p g') : g'.players = g.players := by
  have hmap : g'.seats.map (fun _ _ => ()) = g.seats.map fun _ _ => () := by
    refine Table.ext_get? fun x => ?_
    rw [Table.get?_map, Table.get?_map]
    obtain ⟨hs, hs'⟩ | ⟨s, s', hs, hs', -⟩ := h.seat_cases x <;> simp [hs, hs']
  rw [Game.players, Game.players, ← Table.keys_map fun _ _ => (), hmap, Table.keys_map]

theorem Rearranged.size_seats (h : g.Rearranged p g') : g'.seats.size = g.seats.size := by
  have hlength := congrArg List.length h.players
  rwa [Game.players, Game.players, Table.keys, Table.keys, List.length_map, List.length_map]
    at hlength

theorem Rearranged.others (h : g.Rearranged p g') (name : String) :
    g'.others name = g.others name := by
  rw [Game.others, Game.others, h.players]

theorem Rearranged.summary (h : g.Rearranged p g') : g'.summary = g.summary := by
  rw [Game.summary, h.players, h.frame, Game.summary]

theorem Rearranged.toPlayer (h : g.Rearranged p g') (k : Kind) (name : String)
    (socket : Option SocketId) : g'.toPlayer k name socket = g.toPlayer k name socket := by
  rw [Game.toPlayer, h.id, Game.toPlayer]

theorem Rearranged.toAll (h : g.Rearranged p g') (k : Kind) (f : String → Message → Message) :
    g'.toAll k f = g.toAll k f := by
  simp only [Game.toAll, h.players, h.toPlayer]

theorem Rearranged.infoChanged (h : g.Rearranged p g') : g'.infoChanged = g.infoChanged := by
  rw [Game.infoChanged, h.id, h.summary, Game.infoChanged]

theorem Rearranged.poolSize (h : g.Rearranged p g') : g'.poolSize = g.poolSize := by
  rw [Game.poolSize, h.pool, Game.poolSize]

theorem Rearranged.boardMessage (h : g.Rearranged p g') (k : Kind) (name : String) (b : Board)
    (socket : Option SocketId) :
    g'.boardMessage k name b socket = g.boardMessage k name b socket := by
  simp only [Game.boardMessage, h.toPlayer, h.summary, h.poolSize, h.rules, ruleLines, h.settings]

theorem Rearranged.board? (h : g.Rearranged p g') (hx : x ≠ p) : g'.board? x = g.board? x := by
  rw [Game.board?, Game.board?]
  obtain ⟨hs, hs'⟩ | ⟨s, s', hs, hs', hr⟩ := h.seat_cases x
  · rw [hs, hs']
  · rw [hs, hs', Option.map_some, Option.map_some, hr.board.same hx]

theorem Rearranged.restock (h : g.Rearranged p g') (pool : List Tile) (shuffler : Shuffler) :
    Game.Rearranged p { g with pool := pool, shuffler := shuffler }
      { g' with pool := pool, shuffler := shuffler } where
  frame := by rw [h.frame]
  seats := h.seats

theorem Rearranged.setStatus (h : g.Rearranged p g') (status : Status) :
    Game.Rearranged p { g with status := status } { g' with status := status } where
  frame := by rw [h.frame]
  seats := h.seats

theorem Rearranged.modify (h : g.Rearranged p g') (name : String) (f f' : Seat → Seat)
    (hf : ∀ s s', s.Rearranged (name = p) s' → (f s).Rearranged (name = p) (f' s')) :
    Game.Rearranged p { g with seats := g.seats.modify name f }
      { g' with seats := g'.seats.modify name f' } where
  frame := by rw [h.frame]
  seats x := by
    simp only [Table.get?_modify]
    split
    · rename_i hx
      obtain ⟨hs, hs'⟩ | ⟨s, s', hs, hs', hr⟩ := h.seat_cases x
      · rw [hs, hs']
        exact .none
      · rw [hs, hs']
        exact .some (hx ▸ hf s s' (hx ▸ hr))
    · exact h.seats x

theorem Rearranged.setBoard (h : g.Rearranged p g') (hb : b.Rearranged (name = p) b') :
    (g.setBoard name b).Rearranged p (g'.setBoard name b') :=
  h.modify name _ _ fun _ _ hs => ⟨hs.prize, hb⟩

theorem Rearranged.penalized (h : g.Rearranged p g') (name : String) :
    (g.penalized name).Rearranged p (g'.penalized name) := by
  by_cases hrule : g.rules.penalize
  · rw [Game.penalized, Game.penalized, if_pos hrule, if_pos (h.rules ▸ hrule)]
    exact h.modify name _ _ fun _ _ hs => ⟨congrArg lowered hs.prize, hs.board⟩
  · rwa [Game.penalized, Game.penalized, if_neg hrule, if_neg (h.rules ▸ hrule)]

theorem Rearranged.sit (h : g.Rearranged p g') (hb : b.Rearranged (name = p) b') (prize : UInt32) :
    Game.Rearranged p { g with seats := g.seats.insert name ⟨b, prize⟩ }
      { g' with seats := g'.seats.insert name ⟨b', prize⟩ } where
  frame := by rw [h.frame]
  seats x := by
    simp only [Table.get?_insert]
    split
    · rename_i hx
      exact .some ⟨rfl, hx ▸ hb⟩
    · exact h.seats x

end Game

end TileRace
