import Mathlib.Logic.Relation
import TileRace.Dictionary
import TileRace.Proofs.Board.Coherent
import TileRace.Summary

namespace TileRace

def Cell.Adjacent (c d : Cell) : Prop :=
  c.x = d.x ∧ (c.y = d.y + 1 ∨ d.y = c.y + 1) ∨ c.y = d.y ∧ (c.x = d.x + 1 ∨ d.x = c.x + 1)

inductive Direction where
  | across
  | down

def Cell.along (c : Cell) : Direction → Int → Cell
  | .across, n => ⟨c.x + n, c.y⟩
  | .down, n => ⟨c.x, c.y + n⟩

namespace Crossword

variable (ps : List Placement)

def Occupied (c : Cell) : Prop := ∃ p ∈ ps, p.cell = c

def Shows (c : Cell) (letter : Char) : Prop := ∃ p ∈ ps, p.cell = c ∧ p.tile.letter = letter

/-- Tiles on two cells that share a side. -/
def Touch (c d : Cell) : Prop := Occupied ps c ∧ Occupied ps d ∧ c.Adjacent d

/-- From each tile there is a way over tiles to each other one. -/
def Connected : Prop := ∀ p ∈ ps, ∀ q ∈ ps, Relation.ReflTransGen (Touch ps) p.cell q.cell

/-- The tiles from a cell on spell a word of two or more letters, with no tile right before it
and none right after it. -/
structure Run (dir : Direction) (c : Cell) (word : String) : Prop where
  two_le : 2 ≤ word.toList.length
  shows : ∀ i (h : i < word.toList.length), Shows ps (c.along dir i) word.toList[i]
  before : ¬ Occupied ps (c.along dir (-1))
  after : ¬ Occupied ps (c.along dir word.toList.length)

end Crossword

/-- Placed tiles that hang together and whose runs keep to the word rules. -/
structure Rules.Crossword (r : Rules) (d : Dictionary) (ps : List Placement) : Prop where
  connected : Crossword.Connected ps
  long : ∀ dir c word, Crossword.Run ps dir c word → r.minLength.toNat ≤ word.toList.length
  accepted : ∀ dir c word, Crossword.Run ps dir c word → d.accepts word
  once : r.allowDuplicates = false → ∀ dir c dir' c' word,
    Crossword.Run ps dir c word → Crossword.Run ps dir' c' word → dir = dir' ∧ c = c'

/-- A board that may win: all tiles are placed, there are some, and they make a crossword. -/
structure Board.Deserving (b : Board) (r : Rules) (d : Dictionary) : Prop where
  hand : b.hand = []
  placed : b.placed ≠ []
  crossword : r.Crossword d b.placed

namespace Crossword

variable {b : Board} {ps : List Placement} {c d : Cell} {dir : Direction}

theorem adjacent_iff : c.Adjacent d ↔ d ∈ [c.left, c.right, c.above, c.below] := by
  obtain ⟨x, y⟩ := c
  obtain ⟨x', y'⟩ := d
  simp only [Cell.Adjacent, Cell.left, Cell.right, Cell.above, Cell.below, List.mem_cons,
    List.not_mem_nil, or_false, Cell.mk.injEq]
  omega

instance : Std.Symm (Touch ps) where
  symm c d h := by
    obtain ⟨hc, hd, h⟩ := h
    exact ⟨hd, hc, by rw [Cell.Adjacent] at h ⊢; omega⟩

theorem occupied_iff (hb : b.Coherent) : Occupied b.placed c ↔ ∃ t, b.tileAt c = some t := by
  constructor
  · rintro ⟨p, hp, rfl⟩
    exact ⟨p.tile, hb.tileAt_of_mem hp⟩
  · rintro ⟨t, ht⟩
    obtain ⟨p, hp, -, rfl⟩ := hb.mem_of_tileAt ht
    exact ⟨p, hp, rfl⟩

theorem not_occupied_iff (hb : b.Coherent) : ¬ Occupied b.placed c ↔ b.tileAt c = none := by
  rw [occupied_iff hb]
  cases b.tileAt c <;> simp

theorem shows_iff (hb : b.Coherent) {letter : Char} :
    Shows b.placed c letter ↔ (b.tileAt c).map (·.letter) = some letter := by
  rw [Option.map_eq_some_iff]
  constructor
  · rintro ⟨p, hp, rfl, rfl⟩
    exact ⟨p.tile, hb.tileAt_of_mem hp, rfl⟩
  · rintro ⟨t, ht, rfl⟩
    obtain ⟨p, hp, rfl, rfl⟩ := hb.mem_of_tileAt ht
    exact ⟨p, hp, rfl, rfl⟩

theorem along_along (c : Cell) (dir : Direction) (m n : Int) :
    (c.along dir m).along dir n = c.along dir (m + n) := by
  cases dir <;> simp [Cell.along, Int.add_assoc]

theorem along_zero (c : Cell) (dir : Direction) : c.along dir 0 = c := by
  cases dir <;> simp [Cell.along]

theorem along_inj {m n : Int} : c.along dir m = c.along dir n ↔ m = n := by
  cases dir <;> simp [Cell.along]

end Crossword

end TileRace
