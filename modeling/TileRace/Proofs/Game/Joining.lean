import TileRace.Proofs.Game.Farewell

namespace TileRace.Game

variable {g : Game} {m : Message} {name : String} {b : Board}

/-- The summary says that a player may join, and a new player can get a hand. -/
def Admits (g : Game) (name : String) : Prop :=
  g.summary.canJoin name ∧ (name ∉ g.players → g.settings.handSize.toNat ≤ g.pool.length)

theorem canJoin_iff : g.summary.canJoin name ↔ name ∈ g.players ∨
    g.status = .notStarted ∧ g.seats.size < g.settings.maxPlayers.toNat := by
  have hlength : g.summary.players.length = g.seats.size := List.length_map _
  rw [Summary.canJoin, Bool.or_eq_true, Bool.and_eq_true, List.contains_iff_mem,
    decide_eq_true_iff, decide_eq_true_iff, hlength]
  rfl

theorem admits_iff : g.Admits name ↔ name ∈ g.players ∨ ¬ g.Shut := by
  rw [Admits, canJoin_iff, Shut]
  by_cases hname : name ∈ g.players
  · simp [hname]
  · simp [hname, and_assoc]

def seatedAt (g : Game) (name : String) (b : Board) : Game :=
  { g with
    pool := g.pool.drop g.settings.handSize.toNat
    seats := g.seats.insert name ⟨b, g.settings.prize⟩ }

theorem board?_seatedAt (x : String) :
    (g.seatedAt name b).board? x = if x = name then some b else g.board? x := by
  rw [board?, seatedAt, Table.get?_insert]
  split <;> rfl

/-- What comes of a request to join: a player of the game gets the own board again, a new one gets a
hand from the front of the pool, and others are turned away. -/
inductive Joins (g : Game) (m : Message) (name : String) : Turn → Prop where
  | returns {seat : Seat} (seated : g.seats.get? name = some seat) : Joins g m name
      { game := g, out := [g.boardMessage .joinGame name seat.board m.socket] }
  | enters (b : Board) (absent : name ∉ g.players) (isOpen : ¬ g.Shut)
    (hand : b.hand = g.pool.take g.settings.handSize.toNat) (placed : b.placed = [])
    (grid : b.grid = (m.grid.filter Grid.isValid).getD g.grid) : Joins g m name
      (Game.joined { g with pool := g.pool.drop g.settings.handSize.toNat } name b m.socket)
  | turnedAway {x : Refusal} (absent : name ∉ g.players) (shut : g.Shut)
    (leave : x.kind = .leaveGame) : Joins g m name (refuse m ⟨x, g⟩)

theorem Sound.newcomer_of_open (hg : g.Sound) (h : ¬ g.Shut) (name : String) (m : Message) :
    ∃ b, b.hand = g.pool.take g.settings.handSize.toNat ∧ b.placed = [] ∧
      b.grid = (m.grid.filter Grid.isValid).getD g.grid ∧ g.newcomer name m = .ok
        (Game.joined { g with pool := g.pool.drop g.settings.handSize.toNat } name b m.socket) := by
  simp only [Shut, not_or, not_not, Nat.not_le, Nat.not_lt] at h
  obtain ⟨hnow, hroom, henough⟩ := h
  obtain ⟨b, hb, -, hhand, hplaced, hgrid⟩ :=
    hg.newcomer ((m.grid.filter Grid.isValid).getD g.grid) g.settings.handSize.toNat
  refine ⟨b, hhand, hplaced, hgrid, ?_⟩
  simp only [Game.newcomer, require, hnow, hroom, henough, if_true, bind, Except.bind]
  rw [hb]
  rfl

theorem newcomer_of_shut (h : g.Shut) (name : String) (m : Message) :
    ∃ x : Refusal, x.kind = .leaveGame ∧ g.newcomer name m = .error ⟨x, g⟩ := by
  by_cases hnow : g.status = .notStarted
  · by_cases hroom : g.seats.size < g.settings.maxPlayers.toNat
    · have hfew := (h.resolve_left (not_not.2 hnow)).resolve_left (Nat.not_le.2 hroom)
      refine ⟨.fewTiles, rfl, ?_⟩
      simp [newcomer, require, hnow, hroom, Nat.not_le.2 hfew, bind, Except.bind]
    · refine ⟨.full g.settings.maxPlayers, rfl, ?_⟩
      simp [newcomer, require, hnow, hroom, bind, Except.bind]
  · refine ⟨.alreadyStarted, rfl, ?_⟩
    simp [newcomer, require, hnow, bind, Except.bind]

theorem Sound.joins (hg : g.Sound) (hk : m.kind = .joinGame) (hp : m.player = some name) :
    g.Joins m name (g.handle m) := by
  have hrespond : g.respond m = g.join m := by rw [respond, hk]
  rw [Game.handle, hrespond, join, sender, hp]
  dsimp only [bind, Except.bind]
  cases hs : g.seats.get? name with
  | some seat => exact .returns hs
  | none =>
    have habsent := Table.not_mem_keys.2 hs
    by_cases hshut : g.Shut
    · obtain ⟨x, hx, hnew⟩ := newcomer_of_shut hshut name m
      dsimp only
      rw [hnew]
      exact .turnedAway habsent hshut hx
    · obtain ⟨b, hhand, hplaced, hgrid, hnew⟩ := hg.newcomer_of_open hshut name m
      dsimp only
      rw [hnew]
      exact .enters b habsent hshut hhand hplaced hgrid

/-- The answer to a request to join is what the summary promises, and a join leaves the others
alone. -/
structure Welcomes (g : Game) (m : Message) (name : String) (t : Turn) : Prop where
  goesOn : t.keep ∧ t.award = none
  answered : (∃ o ∈ t.out, o.kind = .joinGame) ↔ g.Admits name
  shown : g.Admits name → ∃ b, t.game.board? name = some b ∧
    messagesTo name t.out = [t.game.boardMessage .joinGame name b m.socket]
  turnedAway : ¬ g.Admits name → t.game = g ∧ ∃ o, t.out = [o] ∧ o.kind = .leaveGame ∧
    o.gameId = some g.id ∧ o.player = some name ∧ o.socket = m.socket
  returned : name ∈ g.players → t.game = g
  entered : name ∉ g.players → g.Admits name → ∃ b : Board,
    b.hand = g.pool.take g.settings.handSize.toNat ∧ b.placed = [] ∧ t.game = g.seatedAt name b ∧
    ∀ x, t.game.board? x = if x = name then some b else g.board? x

theorem Joins.welcomes {t : Turn} (h : g.Joins m name t) (hp : m.player = some name) :
    g.Welcomes m name t := by
  cases h with
  | @returns seat seated =>
    have hmem : name ∈ g.players := Table.mem_keys.2 ⟨seat, seated⟩
    have hadmits : g.Admits name := admits_iff.2 (.inl hmem)
    exact {
      goesOn := ⟨rfl, rfl⟩
      answered := iff_of_true ⟨_, List.mem_singleton_self _, rfl⟩ hadmits
      shown := fun _ => ⟨seat.board, board?_of_seat seated, messagesTo_cons_self rfl⟩
      turnedAway := fun h => (h hadmits).elim
      returned := fun _ => rfl
      entered := fun h => (h hmem).elim }
  | @enters b absent isOpen hand placed =>
    have hadmits : g.Admits name := admits_iff.2 (.inr isOpen)
    have hboard : (g.seatedAt name b).board? name = some b :=
      (board?_seatedAt name).trans (if_pos rfl)
    exact {
      goesOn := ⟨rfl, rfl⟩
      answered := iff_of_true ⟨_, List.mem_cons_self, rfl⟩ hadmits
      shown := fun _ => ⟨b, hboard, messagesTo_joined _ name b m.socket⟩
      turnedAway := fun h => (h hadmits).elim
      returned := fun h => (absent h).elim
      entered := fun _ _ => ⟨b, hand, placed, rfl, board?_seatedAt⟩ }
  | @turnedAway x absent shut leave =>
    have hadmits : ¬ g.Admits name := fun h => (admits_iff.1 h).elim absent (not_not.2 shut)
    have hunanswered : ¬ ∃ o ∈ (refuse m ⟨x, g⟩).out, o.kind = .joinGame := by
      rintro ⟨o, ho, hk⟩
      rw [List.mem_singleton.1 ho] at hk
      cases leave.symm.trans hk
    exact {
      goesOn := ⟨rfl, rfl⟩
      answered := iff_of_false hunanswered hadmits
      shown := fun h => (hadmits h).elim
      turnedAway := fun _ => ⟨rfl, _, rfl, leave, rfl, hp, rfl⟩
      returned := fun h => (absent h).elim
      entered := fun _ h => (hadmits h).elim }

/-- Whoever asks to join a game, whatever was played before, is welcome as its summary says. -/
theorem join_welcomes (hg : g.Reachable) (hk : m.kind = .joinGame) (hp : m.player = some name) :
    g.Welcomes m name (g.handle m) :=
  (hg.sound.joins hk hp).welcomes hp

def entering (name : String) : Message := { kind := .joinGame, player := some name }

/-- A game with tiles for two players: the third is turned away, of whom the summary knows no
reason. -/
theorem join_welcomes_opening : ∃ g g' : Game, g.Reachable ∧
    g.Welcomes (entering "bob") "bob" (g.handle (entering "bob")) ∧ g.Admits "bob" ∧
    g' = (g.handle (entering "bob")).game ∧
    g'.Welcomes (entering "carol") "carol" (g'.handle (entering "carol")) ∧
    g'.summary.canJoin "carol" ∧ ¬ g'.Admits "carol" := by
  have hn : ("CATDOGS".toList.filter Char.isAlpha).length < UInt32.size - 1 := by decide
  have h : setUp 1 { letters := "CATDOGS", handSize := 3 } .standard .standard ⟨["CAT"]⟩ 0 =
    .ok _ := rfl
  have hg := (Reachable.setUp hn h).play (opening.take 1)
  refine ⟨_, _, hg, join_welcomes hg rfl rfl, ⟨rfl, fun _ => ?_⟩, rfl,
    join_welcomes (hg.handle _) rfl rfl, rfl, fun hcarol => ?_⟩
  · decide
  · exact absurd (hcarol.2 (by decide)) (by decide)

end TileRace.Game
