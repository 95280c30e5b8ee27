import TileRace.Proofs.Game.Conservation
import TileRace.Proofs.Game.Messages

namespace TileRace.Game

variable {g : Game} {m : Message} {name : String} {seat : Seat} {t : Turn} {r : Rejection}

theorem toNat_lowered (w : UInt32) : (lowered w).toNat = max 1 (w.toNat - 1) := by
  rw [lowered]
  split
  · rename_i h
    have h : w.toNat ≤ 1 := UInt32.le_iff_toNat_le.1 h
    rw [UInt32.toNat_one]
    omega
  · rename_i h
    have h : ¬ w.toNat ≤ 1 := fun h' => h (UInt32.le_iff_toNat_le.2 h')
    rw [UInt32.toNat_sub_of_le _ _ (UInt32.le_iff_toNat_le.2 (by rw [UInt32.toNat_one]; omega)),
      UInt32.toNat_one]
    omega

/-- What a refusal leaves of a game and tells the sender: nothing has changed but, if a check of
the sender's board failed and that costs points, the sender's prize. -/
structure Refused (g : Game) (m : Message) (t : Turn) : Prop where
  answer : ∃ o, t.out = [o] ∧
    (o.kind = .socketWarning ∨ o.kind = .socketError ∨ o.kind = .leaveGame) ∧
    o.player = m.player ∧ o.socket = m.socket ∧ o.gameId = some g.id
  keep : t.keep = true
  award : t.award = none
  game : t.game = { g with seats := t.game.seats }
  players : t.game.players = g.players
  seats : ∀ name seat, g.seats.get? name = some seat → ∃ seat',
    t.game.seats.get? name = some seat' ∧ seat'.board = seat.board ∧
    (g.rules.penalize ∧ g.FailsCheck m name seat →
      seat'.prize.toNat = max 1 (seat.prize.toNat - 1)) ∧
    (¬ (g.rules.penalize ∧ g.FailsCheck m name seat) → seat'.prize = seat.prize)

theorem FailsCheck.name_eq {x : String} {s : Seat} (h : g.FailsCheck m name seat)
    (h' : g.FailsCheck m x s) : x = name :=
  Option.some.inj (h'.player.symm.trans h.player)

theorem FailsCheck.get?_penalized (h : g.FailsCheck m name seat) {x : String} {s : Seat}
    (hs : g.seats.get? x = some s) :
    ∃ s', (g.penalized name).seats.get? x = some s' ∧ s'.board = s.board ∧
      (g.rules.penalize ∧ g.FailsCheck m x s → s'.prize.toNat = max 1 (s.prize.toNat - 1)) ∧
      (¬ (g.rules.penalize ∧ g.FailsCheck m x s) → s'.prize = s.prize) := by
  rw [Game.get?_penalized, hs]
  split
  · rename_i hx
    obtain ⟨hrule, rfl⟩ := hx
    rw [h.seated] at hs
    cases hs
    exact ⟨_, rfl, rfl, fun _ => toNat_lowered _, fun hn => (hn ⟨hrule, h⟩).elim⟩
  · rename_i hx
    exact ⟨s, rfl, rfl, fun hf => (hx ⟨hf.1, h.name_eq hf.2⟩).elim, fun _ => rfl⟩

theorem Rejected.refused (h : g.Rejected m r) : g.Refused m (refuse m r) := by
  have hid : r.game.id = g.id := by rw [h.game_eq]
  refine ⟨⟨_, rfl, r.refusal.kind_cases, rfl, rfl, congrArg some hid⟩, rfl, rfl, h.game_eq, ?_, ?_⟩
  · change r.game.players = g.players
    cases h with
    | unchanged game => rw [game]
    | failed fails game => rw [game, players_penalized]
  · intro x s hs
    change ∃ s', r.game.seats.get? x = some s' ∧ _
    cases h with
    | unchanged game passed =>
      rw [game]
      exact ⟨s, hs, rfl, fun hf => (passed x s hf.2).elim, fun _ => rfl⟩
    | failed fails game =>
      rw [game]
      exact fails.get?_penalized hs

theorem Accepted.kind_ne (h : g.Accepted m t) {o : Message} (ho : o ∈ t.out) :
    o.kind ≠ .socketWarning ∧ o.kind ≠ .socketError := by
  have hasked := h.asked
  obtain hk | hk := h.kind_eq ho
  · rw [← hk] at hasked
    constructor <;> intro he <;> simp [he] at hasked
  · constructor <;> intro he <;> simp [he] at hk

/-- A request is carried out, or it is refused as a whole with one answer. -/
theorem handle_atomic (hg : g.Reachable) (m : Message) :
    (∀ r, g.respond m = .error r → g.Refused m (g.handle m)) ∧
    (∀ t, g.respond m = .ok t → (∀ name seat, ¬ g.FailsCheck m name seat) ∧
      ∀ o ∈ (g.handle m).out, o.kind ≠ .socketWarning ∧ o.kind ≠ .socketError) := by
  refine ⟨fun r h => ?_, fun t h => ?_⟩
  · rw [handle, h]
    exact (hg.sound.rejected h).refused
  · rw [handle, h]
    exact ⟨fun _ _ => (respond_ok h).passes, fun o ho => (respond_ok h).kind_ne ho⟩

theorem handle_atomic_finishing : ∃ (g : Game) (r : Rejection), g.Reachable ∧
    g.respond finishing = .error r ∧ g.Refused finishing (g.handle finishing) ∧
    (g.seats.get? "ann").map (·.prize) = some 10 ∧
    ((g.handle finishing).game.seats.get? "ann").map (·.prize) = some 9 := by
  have hn : ("CATS".toList.filter Char.isAlpha).length < UInt32.size - 1 := by decide
  have h : setUp 1 { letters := "CATS", handSize := 2 } ⟨true, true, 2, true⟩ .standard
    ⟨["CAT"]⟩ 0 = .ok _ := rfl
  have hg := (Reachable.setUp hn h).play opening
  exact ⟨_, _, hg, rfl, (handle_atomic hg finishing).1 _ rfl, rfl, rfl⟩

end TileRace.Game
