import Mathlib.Data.Nat.Find
import TileRace.Proofs.Board.Runs
import TileRace.Proofs.Board.Spot

namespace TileRace

structure Stretch where
  dir : Direction
  first : Cell
  word : String

namespace Stretch

def In (r : Stretch) (ps : List Placement) : Prop := Crossword.Run ps r.dir r.first r.word

def Covers (r : Stretch) (c : Cell) : Prop :=
  ∃ i : Nat, i < r.word.toList.length ∧ r.first.along r.dir i = c

end Stretch

namespace Crossword

/-- All runs of a direction, each once, in the order of their first cells. -/
structure Lists (ps : List Placement) (dir : Direction) (rs : List Stretch) : Prop where
  mem : ∀ r, r ∈ rs ↔ r.dir = dir ∧ r.In ps
  sorted : rs.Pairwise fun r s => dir.before r.first s.first

variable {ps : List Placement} {dir dir' : Direction} {c c' d : Cell} {word word' : String} {i j : Nat}

theorem adjacent_iff_along : c.Adjacent d ↔ ∃ dir, d = c.along dir 1 ∨ c = d.along dir 1 := by
  constructor
  · rintro (⟨hx, hy⟩ | ⟨hy, hx⟩)
    · refine ⟨.down, ?_⟩
      simp only [Cell.ext_iff, Cell.along]
      omega
    · refine ⟨.across, ?_⟩
      simp only [Cell.ext_iff, Cell.along]
      omega
  · rintro ⟨dir, rfl | rfl⟩ <;> cases dir <;> simp [Cell.Adjacent, Cell.along]

theorem along_dir_eq {m n : Int} (h : d.along dir' m = c) (h' : d.along dir' n = c.along dir 1) :
    dir' = dir := by
  subst h
  simp only [Cell.ext_iff, Cell.along] at h'
  cases dir with
  | across => cases dir' with
    | across => rfl
    | down =>
      simp only at h'
      omega
  | down => cases dir' with
    | across =>
      simp only at h'
      omega
    | down => rfl

theorem Run.occupied (h : Run ps dir c word) (hi : i < word.toList.length) :
    Occupied ps (c.along dir i) := by
  obtain ⟨p, hp, hc, -⟩ := h.shows i hi
  exact ⟨p, hp, hc⟩

theorem Run.le_of_along_eq (h : Run ps dir c word) (h' : Run ps dir c' word')
    (hj : j < word'.toList.length) (he : c.along dir i = c'.along dir j) : j ≤ i := by
  by_contra hlt
  refine h.before ?_
  have hc : c.along dir (-1) = c'.along dir ((j - i - 1 : Nat) : Int) := by
    have hback := congrArg (·.along dir (-(i : Int) - 1)) he
    simp only [along_along] at hback
    convert hback using 2 <;> omega
  rw [hc]
  exact h'.occupied (by omega)

theorem Run.first_eq (h : Run ps dir c word) (h' : Run ps dir c' word')
    (hi : i < word.toList.length) (hj : j < word'.toList.length)
    (he : c.along dir i = c'.along dir j) : c = c' := by
  obtain rfl : i = j := Nat.le_antisymm (h'.le_of_along_eq h hi he.symm) (h.le_of_along_eq h' hj he)
  have hback := congrArg (·.along dir (-(i : Int))) he
  simpa only [along_along, Int.add_right_neg, along_zero] using hback

end Crossword

namespace Board

open Crossword

/-- Adds to a word the letters from a spot on, for as long as there are tiles. There is no answer if
the loop would take more than the given number of rounds, or leaves the range of machine numbers. -/
def readOn (b : Board) (dir : Direction) : Nat → Spot → List Char → Option (List Char)
  | 0, _, _ => none
  | n + 1, s, word => match b.tileAt s.cell with
    | none => some word
    | some t => do
      let next ← s.along? 1 dir
      b.readOn dir n next (word ++ [t.letter])

def scanFrom (b : Board) (n : Nat) (dir : Direction) (words : List String) (p : Placement) :
    Option (List String) := do
  let back ← p.spot.along? (-1) dir
  if (b.tileAt back.cell).isSome then return words
  let word ← b.readOn dir n p.spot []
  return if 2 ≤ word.length then words ++ [String.ofList word] else words

/-- Scans for words, whatever the order in which the placed tiles come up. No loop takes more than
`n` rounds. -/
def scan (b : Board) (n : Nat) (vs : List Placement) : Option (List String) := do
  let ps := Placement.sort Cell.rowBefore vs
  let words ← ps.foldlM (b.scanFrom n .across) []
  (Placement.sort Cell.columnBefore ps).foldlM (b.scanFrom n .down) words

variable {b : Board} {dir : Direction} {c d : Cell} {ps vs : List Placement} {k n : Nat}

theorem readOn_eq (hb : b.Coherent) (hin : b.Inside) (hclear : b.Clear) {s : Spot}
    (hend : b.tileAt (s.cell.along dir (b.letters (·.along dir 1) k s.cell).length) = none)
    (hn : (b.letters (·.along dir 1) k s.cell).length < n) (word : List Char) :
    b.readOn dir n s word = some (word ++ b.letters (·.along dir 1) k s.cell) := by
  induction k generalizing n s word with
  | zero =>
    obtain ⟨n, rfl⟩ := Nat.exists_eq_add_one_of_ne_zero (Nat.ne_zero_of_lt hn)
    rw [letters, List.length_nil, Int.natCast_zero, along_zero] at hend
    rw [letters, readOn, hend, List.append_nil]
  | succ k ih =>
    obtain ⟨n, rfl⟩ := Nat.exists_eq_add_one_of_ne_zero (Nat.ne_zero_of_lt hn)
    rw [readOn]
    cases ht : b.tileAt s.cell with
    | none => simp only [letters, ht, List.append_nil]
    | some t =>
      obtain ⟨next, hnext, hcell⟩ :=
        hclear.along? hin ((occupied_iff hb).2 ⟨t, ht⟩) (.inl rfl) dir
      have hcell : next.cell = s.cell.along dir 1 := hcell
      simp only [letters, ht, ← hcell, List.length_cons] at hend hn ⊢
      rw [Int.natCast_add, Int.natCast_one, Int.add_comm, ← along_along, ← hcell] at hend
      simp only [hnext, Option.bind_eq_bind, Option.bind_some]
      rw [ih hend (Nat.lt_of_succ_lt_succ hn), List.append_assoc]
      rfl

theorem runs_cons (b : Board) (next back : Cell → Cell) (p : Placement) (ps : List Placement) :
    b.runs next back (p :: ps) = b.runs next back [p] ++ b.runs next back ps := by
  simp only [runs, ← List.map_append, ← List.filter_append]
  rfl

theorem scanFrom_eq (hb : b.Coherent) (hin : b.Inside) (hclear : b.Clear) {p : Placement}
    (hp : p ∈ b.placed) (hn : b.used.size < n) (dir : Direction) (words : List String) :
    b.scanFrom n dir words p =
      some (words ++ b.runs (·.along dir 1) (·.along dir (-1)) [p]) := by
  obtain ⟨back, hback, hcell⟩ := hclear.along? hin (s := p.spot) ⟨p, hp, rfl⟩ (.inr rfl) dir
  have hcell : back.cell = p.cell.along dir (-1) := hcell
  have hread : b.readOn dir n p.spot [] = some (b.letters (·.along dir 1) b.used.size p.cell) :=
    readOn_eq (s := p.spot) hb hin hclear (hb.letters_end dir p.spot.cell)
      (Nat.lt_of_le_of_lt (b.letters_length_le _ _ _) hn) []
  simp only [scanFrom, hback, hcell, hread, Option.bind_eq_bind, Option.bind_some, runs]
  cases ht : b.tileAt (p.cell.along dir (-1)) with
  | some t => simp [ht]
  | none =>
    by_cases htwo : 2 ≤ (b.letters (·.along dir 1) b.used.size p.cell).length <;> simp [ht, htwo]

theorem foldlM_scanFrom (hb : b.Coherent) (hin : b.Inside) (hclear : b.Clear)
    (hps : ∀ p ∈ ps, p ∈ b.placed) (hn : b.used.size < n) (dir : Direction) (words : List String) :
    ps.foldlM (b.scanFrom n dir) words =
      some (words ++ b.runs (·.along dir 1) (·.along dir (-1)) ps) := by
  induction ps generalizing words with
  | nil => exact congrArg some (List.append_nil words).symm
  | cons p ps ih =>
    rw [List.foldlM_cons, scanFrom_eq hb hin hclear (hps p List.mem_cons_self) hn]
    exact (ih (fun q hq => hps q (List.mem_cons_of_mem p hq)) _).trans (by
      rw [runs_cons b _ _ p ps, List.append_assoc])

theorem scan_eq (hb : b.Coherent) (hin : b.Inside) (hclear : b.Clear)
    (hvs : vs.Perm b.used.values) (hn : b.used.size < n) : b.scan n vs = some b.words := by
  rw [scan, hb.sort_eq_placed hvs]
  simp only [foldlM_scanFrom hb hin hclear (fun p hp => hp) hn, Option.bind_eq_bind,
    Option.bind_some]
  exact foldlM_scanFrom hb hin hclear
    (fun p hp => (Placement.sort_perm _ b.placed).mem_iff.1 hp) hn .down _

def stretch (b : Board) (dir : Direction) (p : Placement) : Stretch :=
  ⟨dir, p.cell, String.ofList (b.letters (·.along dir 1) b.used.size p.cell)⟩

theorem Coherent.lists_starts (hb : b.Coherent) (hps : ps.Perm b.placed)
    (hsorted : Placement.Sorted dir ps) :
    Lists b.placed dir ((b.starts dir ps).map (b.stretch dir)) where
  mem r := by
    rw [List.mem_map]
    constructor
    · rintro ⟨p, hp, rfl⟩
      exact ⟨rfl, (hb.run_iff_starts hps).2 ⟨p, hp, rfl, rfl⟩⟩
    · rintro ⟨rfl, h⟩
      obtain ⟨p, hp, hc, hw⟩ := (hb.run_iff_starts hps).1 h
      exact ⟨p, hp, by rw [stretch, hw, hc]⟩
  sorted := List.pairwise_map.2 (hsorted.filter _)

theorem Coherent.exists_lists (hb : b.Coherent) : ∃ across down,
    Lists b.placed .across across ∧ Lists b.placed .down down ∧
      b.words = (across ++ down).map (·.word) := by
  refine ⟨_, _, hb.lists_starts (.refl _) hb.rowSorted_placed.sorted,
    hb.lists_starts (Placement.sort_perm _ _) (Placement.sorted_sort .down hb.placed_cells_nodup), ?_⟩
  rw [words_eq, runs_eq, runs_eq, List.map_append, List.map_map, List.map_map]
  rfl

theorem exists_start (hd : Occupied b.placed d) (dir : Direction) :
    ∃ n : Nat, ¬ Occupied b.placed (d.along dir (-(n : Int) - 1)) ∧
      ∀ i : Nat, i ≤ n → Occupied b.placed (d.along dir (-(i : Int))) := by
  classical
  have hgap : ∃ n : Nat, ¬ Occupied b.placed (d.along dir (-(n : Int) - 1)) := by
    -- with no gap, more cells in a row would be occupied than tiles are placed
    by_contra hall
    simp only [not_exists, not_not] at hall
    refine Nat.not_succ_le_self b.used.size
      (length_le_of_occupied (d.along dir (-(b.used.size : Int) - 1)) dir fun i hi => ?_)
    rw [along_along]
    convert hall (b.used.size - i) using 2
    omega
  refine ⟨Nat.find hgap, Nat.find_spec hgap, fun i hi => ?_⟩
  cases i with
  | zero => rwa [Int.natCast_zero, Int.neg_zero, along_zero]
  | succ i =>
    convert not_not.1 (Nat.find_min hgap (Nat.lt_of_succ_le hi)) using 2
    omega

theorem Coherent.exists_run (hb : b.Coherent) (hd : Occupied b.placed d)
    (hd' : Occupied b.placed (d.along dir 1)) :
    ∃ r : Stretch, r.In b.placed ∧ r.Covers d ∧ r.Covers (d.along dir 1) := by
  obtain ⟨n, hgap, hback⟩ := exists_start hd dir
  have hocc (i : Nat) (hi : i ≤ n + 1) : Occupied b.placed ((d.along dir (-n)).along dir i) := by
    rw [along_along]
    obtain hle | rfl := Nat.le_or_eq_of_le_succ hi
    · convert hback (n - i) (Nat.sub_le n i) using 2
      omega
    · convert hd' using 2
      omega
  have hlen : n + 1 < (b.letters (·.along dir 1) b.used.size (d.along dir (-n))).length := by
    by_contra hle
    exact (not_occupied_iff hb).2 (hb.letters_end dir (d.along dir (-n))) (hocc _ (by omega))
  refine ⟨⟨dir, d.along dir (-n), String.ofList (b.letters (·.along dir 1) b.used.size
    (d.along dir (-n)))⟩, hb.run_iff.2 ⟨?_, ?_, ?_⟩, ⟨n, ?_, ?_⟩, n + 1, ?_, ?_⟩
  · rwa [← not_occupied_iff hb, along_along]
  · rw [String.toList_ofList]
    omega
  · rw [String.toList_ofList]
  · rw [String.toList_ofList]
    omega
  · rw [along_along, Int.add_left_neg, along_zero]
  · rwa [String.toList_ofList]
  · rw [along_along]
    congr 1
    omega

theorem Coherent.run_unique (hb : b.Coherent) {r s : Stretch} (hr : r.In b.placed)
    (hs : s.In b.placed) (hrd : r.Covers d) (hrd' : r.Covers (d.along dir 1)) (hsd : s.Covers d)
    (hsd' : s.Covers (d.along dir 1)) : r = s := by
  obtain ⟨dir₁, first, word⟩ := r
  obtain ⟨dir₂, first', word'⟩ := s
  obtain ⟨i, hi, hic⟩ := hrd
  obtain ⟨j, hj, hjc⟩ := hsd
  obtain ⟨_, -, hic'⟩ := hrd'
  obtain ⟨_, -, hjc'⟩ := hsd'
  obtain rfl : dir₁ = dir := along_dir_eq hic hic'
  obtain rfl : dir₂ = dir₁ := along_dir_eq hjc hjc'
  obtain rfl : first = first' := hr.first_eq hs hi hj (hic.trans hjc.symm)
  obtain ⟨-, -, hword⟩ := hb.run_iff.1 hr
  obtain ⟨-, -, hword'⟩ := hb.run_iff.1 hs
  obtain rfl : word = word' := String.toList_injective (hword.symm.trans hword')
  rfl

theorem Coherent.existsUnique_run (hb : b.Coherent) (hc : Occupied b.placed c)
    (hd : Occupied b.placed d) (h : c.Adjacent d) :
    ∃! r : Stretch, r.In b.placed ∧ r.Covers c ∧ r.Covers d := by
  obtain ⟨dir, rfl | rfl⟩ := adjacent_iff_along.1 h
  · obtain ⟨r, hr, hrc, hrd⟩ := hb.exists_run hc hd
    exact ⟨r, ⟨hr, hrc, hrd⟩, fun s hs => hb.run_unique hs.1 hr hs.2.1 hs.2.2 hrc hrd⟩
  · obtain ⟨r, hr, hrd, hrc⟩ := hb.exists_run hd hc
    exact ⟨r, ⟨hr, hrc, hrd⟩, fun s hs => hb.run_unique hs.1 hr hs.2.2 hs.2.1 hrd hrc⟩

def ring : Board :=
  (Call.move [⟨⟨1, 'C'⟩, 1, 1⟩, ⟨⟨2, 'O'⟩, 2, 1⟩, ⟨⟨3, 'N'⟩, 3, 1⟩, ⟨⟨4, 'A'⟩, 1, 2⟩,
    ⟨⟨5, 'R'⟩, 1, 3⟩, ⟨⟨6, 'U'⟩, 2, 3⟩, ⟨⟨7, 'T'⟩, 3, 3⟩]).after
      ((ofTiles ⟨10, 10⟩ (Tile.ofLetters "CONARUT")).toOption.getD default)

theorem reachable_ring : ring.Reachable := by
  have h : ofTiles ⟨10, 10⟩ (Tile.ofLetters "CONARUT") =
      .ok ((ofTiles ⟨10, 10⟩ (Tile.ofLetters "CONARUT")).toOption.getD default) := rfl
  exact .call (.made h) _

theorem clear_ring : ring.Clear := by
  rw [Clear]
  decide +kernel

/-- The words of a board are what its runs spell, those across row by row and then those down column
by column. No two tiles side by side are left out or come up twice, and the scan ends, with no loop
taking more rounds than there are tiles and one, without leaving the range of machine numbers. -/
theorem words_exact (hb : b.Reachable) (hclear : b.Clear) :
    (∃ across down, Lists b.placed .across across ∧ Lists b.placed .down down ∧
      b.words = (across ++ down).map (·.word)) ∧
    (∀ p ∈ b.placed, ∀ q ∈ b.placed, p.cell.Adjacent q.cell →
      ∃! r : Stretch, r.In b.placed ∧ r.Covers p.cell ∧ r.Covers q.cell) ∧
    ∀ n vs, b.used.size < n → vs.Perm b.used.values → b.scan n vs = some b.words := by
  obtain ⟨hco, hin⟩ := hb.coherent
  exact ⟨hco.exists_lists,
    fun p hp q hq h => hco.existsUnique_run ⟨p, hp, rfl⟩ ⟨q, hq, rfl⟩ h,
    fun _ _ hn hvs => scan_eq hco hin hclear hvs hn⟩

theorem words_exact_ring : ring.Reachable ∧ ring.Clear ∧
    (∃ across down, Lists ring.placed .across across ∧ Lists ring.placed .down down ∧
      (across ++ down).map (·.word) = ["CON", "RUT", "CAR"]) ∧
    (∃! r : Stretch, r.In ring.placed ∧ r.Covers ⟨1, 1⟩ ∧ r.Covers ⟨1, 2⟩) ∧
    ring.scan 8 ring.used.values.reverse = some ["CON", "RUT", "CAR"] := by
  have hwords : ring.words = ["CON", "RUT", "CAR"] := by decide +kernel
  obtain ⟨⟨across, down, hacross, hdown, hspelt⟩, hrun, hscan⟩ :=
    words_exact reachable_ring clear_ring
  refine ⟨reachable_ring, clear_ring, ⟨across, down, hacross, hdown, hspelt.symm.trans hwords⟩, ?_, ?_⟩
  · exact hrun ⟨⟨1, 'C'⟩, 1, 1⟩ (by decide +kernel) ⟨⟨4, 'A'⟩, 1, 2⟩ (by decide +kernel)
      (.inl ⟨rfl, .inr rfl⟩)
  · rw [hscan 8 _ (by decide +kernel) (List.reverse_perm _), hwords]

end Board

end TileRace
