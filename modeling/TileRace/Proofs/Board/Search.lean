import TileRace.Proofs.Board.Connected
import TileRace.Proofs.Board.Scan

namespace TileRace.Board

open Crossword

structure Quest where
  seen : List TileId
  stack : List Spot

def note (b : Board) (w : Quest) (s : Spot) : Quest :=
  match b.tileAt s.cell with
  | some t => if t.id ∈ w.seen then w else ⟨t.id :: w.seen, s :: w.stack⟩
  | none => w

/-- Searches on until no spot is left, giving the tiles seen. There is no answer if the loop would take
more than the given number of rounds, or leaves the range of machine numbers. -/
def search (b : Board) : Nat → Quest → Option (List TileId)
  | 0, _ => none
  | n + 1, w => match w.stack with
    | [] => some w.seen
    | s :: rest => do
      let around ← s.around?
      b.search n (around.foldl b.note ⟨w.seen, rest⟩)

/-- Whether every tile is placed and can be reached from the one that comes up first. The search takes
no more than `n` rounds. -/
def gathers (b : Board) (n : Nat) (vs : List Placement) : Option Bool :=
  if b.unused.size ≠ 0 then some false
  else match vs with
    | [] => some false
    | p :: _ => do
      let seen ← b.search n ⟨[p.tile.id], [p.spot]⟩
      return seen.length = b.used.size

variable {b : Board} {start : Cell} {w : Quest} {p : Placement} {vs : List Placement}
  {m n : Nat}

def Quest.walk (w : Quest) : Walk := ⟨w.seen, w.stack.map Spot.cell⟩

theorem walk_note (b : Board) (w : Quest) (s : Spot) : (b.note w s).walk = b.visit w.walk s.cell := by
  rw [note, visit]
  cases b.tileAt s.cell with
  | none => rfl
  | some t =>
    by_cases ht : t.id ∈ w.seen
    · simp only [Quest.walk, ht, if_true]
    · simp only [Quest.walk, ht, if_false, List.map_cons]

theorem walk_foldl_note (b : Board) (w : Quest) (ss : List Spot) :
    (ss.foldl b.note w).walk = (ss.map Spot.cell).foldl b.visit w.walk := by
  induction ss generalizing w with
  | nil => rfl
  | cons s ss ih => rw [List.foldl_cons, ih, walk_note, List.map_cons, List.foldl_cons]

theorem Clear.around? (hclear : b.Clear) (hin : b.Inside) {s : Spot} (hs : Occupied b.placed s.cell) :
    ∃ ss, s.around? = some ss ∧
      ss.map Spot.cell = [s.cell.left, s.cell.right, s.cell.above, s.cell.below] := by
  obtain ⟨left, hleft, hleft'⟩ := hclear.along? hin hs (.inr rfl) .across
  obtain ⟨right, hright, hright'⟩ := hclear.along? hin hs (.inl rfl) .across
  obtain ⟨above, habove, habove'⟩ := hclear.along? hin hs (.inr rfl) .down
  obtain ⟨below, hbelow, hbelow'⟩ := hclear.along? hin hs (.inl rfl) .down
  refine ⟨[left, right, above, below], ?_, ?_⟩
  · simp only [Spot.around?, hleft, hright, habove, hbelow, Option.bind_eq_bind, Option.bind_some,
      Option.pure_def]
  · simp only [List.map_cons, List.map_nil, hleft', hright', habove', hbelow']
    rfl

theorem Clear.search_round (hclear : b.Clear) (hin : b.Inside) {s : Spot}
    (hs : Occupied b.placed s.cell) (seen : List TileId) (rest : List Spot) (m : Nat) :
    ∃ w : Quest, b.search (m + 1) ⟨seen, s :: rest⟩ = b.search m w ∧
      w.walk = [s.cell.left, s.cell.right, s.cell.above, s.cell.below].foldl b.visit
        ⟨seen, rest.map Spot.cell⟩ := by
  obtain ⟨ss, hss, hcells⟩ := hclear.around? hin hs
  refine ⟨ss.foldl b.note ⟨seen, rest⟩, ?_, ?_⟩
  · simp only [search, hss, Option.bind_eq_bind, Option.bind_some]
  · rw [walk_foldl_note, hcells]
    rfl

theorem Explores.search (hb : b.Coherent) (hin : b.Inside) (hclear : b.Clear)
    (h : b.Explores start w.walk.seen w.walk.stack)
    (hn : w.stack.length + b.used.size ≤ n + w.seen.length)
    (hm : w.stack.length + b.used.size < m + w.seen.length) :
    b.search m w = some (b.walk n w.walk).seen := by
  obtain ⟨seen, stack⟩ := w
  have hle : seen.length ≤ b.used.size := h.length_le
  induction n generalizing seen stack m with
  | zero =>
    obtain rfl : stack = [] := List.length_eq_zero_iff.1 (by simp only at hn; omega)
    obtain ⟨m, rfl⟩ : ∃ m', m = m' + 1 := Nat.exists_eq_add_one_of_ne_zero (by simp only at hm; omega)
    rfl
  | succ n ih =>
    obtain ⟨m, rfl⟩ : ∃ m', m = m' + 1 := Nat.exists_eq_add_one_of_ne_zero (by simp only at hm; omega)
    cases stack with
    | nil => rfl
    | cons s rest =>
      obtain ⟨⟨seen', stack'⟩, hround, hwalk⟩ := hclear.search_round hin
        (h.pending s.cell List.mem_cons_self).1 seen rest m
      have hleave := Explores.leave (w := ⟨seen, rest.map Spot.cell⟩) hb h
      have hlen := length_foldl_visit b ⟨seen, rest.map Spot.cell⟩
        [s.cell.left, s.cell.right, s.cell.above, s.cell.below]
      rw [← hwalk] at hleave hlen
      -- a tile that is put on the stack is one more that is seen
      simp only [Quest.walk, List.length_map, List.length_cons] at hlen hn hm
      have hwalks : b.walk (n + 1) (Quest.walk ⟨seen, s :: rest⟩) =
          b.walk n (Quest.walk ⟨seen', stack'⟩) := by
        rw [hwalk]
        rfl
      rw [hround, hwalks]
      exact ih _ _ hleave (by simp only; omega) (by simp only; omega) hleave.length_le

theorem gathers_eq (hb : b.Coherent) (hin : b.Inside) (hclear : b.Clear)
    (hvs : vs.Perm b.used.values) (hn : b.used.size < n) :
    b.gathers n vs = some b.isSingleGroup := by
  by_cases hu : b.unused.size = 0
  · cases vs with
    | nil => simp [gathers, hu, isSingleGroup, List.nil_perm.1 hvs]
    | cons p vs =>
      have hp : p ∈ b.placed := b.placed_perm.mem_iff.2 (hvs.mem_iff.1 List.mem_cons_self)
      have hsearch := Explores.search (w := ⟨[p.tile.id], [p.spot]⟩) hb hin hclear
        (hb.explores_start hp) (n := b.used.size) (m := n) (Nat.le_of_eq (Nat.add_comm _ _))
        (by simpa [Nat.add_comm 1] using hn)
      have hfound : (b.walk b.used.size (Quest.walk ⟨[p.tile.id], [p.spot]⟩)).seen.length =
          b.used.size ↔ b.isSingleGroup := hb.walk_length_iff_isSingleGroup hu hp
      simp [gathers, hu, hsearch, hfound]
  · simp [gathers, hu, isSingleGroup]

/-- Whether the tiles are a single group is whether all are placed, and from each there is a way over
tiles to each other one. The search finds that out from whatever tile it begins with, and ends, in
no more rounds than there are tiles and one, without leaving the range of machine numbers. -/
theorem group_exact (hb : b.Reachable) (hclear : b.Clear) :
    (b.isSingleGroup ↔ b.hand = [] ∧ b.placed ≠ [] ∧ Connected b.placed) ∧
    ∀ n vs, b.used.size < n → vs.Perm b.used.values → b.gathers n vs = some b.isSingleGroup := by
  obtain ⟨hco, hin⟩ := hb.coherent
  exact ⟨hco.isSingleGroup_iff, fun _ _ hn hvs => gathers_eq hco hin hclear hvs hn⟩

theorem group_exact_ring : ring.Reachable ∧ ring.Clear ∧ ring.hand = [] ∧ ring.placed ≠ [] ∧
    Connected ring.placed ∧ ring.gathers 8 ring.used.values.reverse = some true := by
  have hgroup : ring.isSingleGroup := by decide +kernel
  obtain ⟨hiff, hsearch⟩ := group_exact reachable_ring clear_ring
  obtain ⟨hhand, hplaced, hconnected⟩ := hiff.1 hgroup
  refine ⟨reachable_ring, clear_ring, hhand, hplaced, hconnected, ?_⟩
  rw [hsearch 8 _ (by decide +kernel) (List.reverse_perm _), hgroup]

end TileRace.Board
