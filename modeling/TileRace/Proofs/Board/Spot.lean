import TileRace.Proofs.Board.Calls
import TileRace.Proofs.Board.Crossword

namespace TileRace

structure Spot where
  x : Int32
  y : Int32

def Placement.spot (p : Placement) : Spot := ⟨p.x, p.y⟩

namespace Spot

def cell (s : Spot) : Cell := ⟨s.x.toInt, s.y.toInt⟩

def sum? (m n : Int32) : Option Int32 :=
  if (m + n).toInt = m.toInt + n.toInt then some (m + n) else none

def along? (s : Spot) (n : Int32) : Direction → Option Spot
  | .across => (sum? s.x n).map fun x => ⟨x, s.y⟩
  | .down => (sum? s.y n).map fun y => ⟨s.x, y⟩

def around? (s : Spot) : Option (List Spot) := do
  return [← s.along? (-1) .across, ← s.along? 1 .across, ← s.along? (-1) .down, ← s.along? 1 .down]

theorem sum?_of_range {m n : Int32} (hlow : Int32.minValue.toInt ≤ m.toInt + n.toInt)
    (hhigh : m.toInt + n.toInt ≤ Int32.maxValue.toInt) : sum? m n = some (m + n) := by
  refine if_pos ?_
  rw [Int32.toInt_add]
  refine Int.bmod_eq_of_le ?_ ?_
  · exact hlow
  · exact Int.lt_of_le_of_lt hhigh (by decide)

theorem cell_of_along? {s s' : Spot} {n : Int32} {dir : Direction} (h : s.along? n dir = some s') :
    s'.cell = s.cell.along dir n.toInt := by
  have hsum {m k : Int32} (h : sum? m n = some k) : k.toInt = m.toInt + n.toInt := by
    rw [sum?] at h
    split at h
    · cases h
      assumption
    · cases h
  cases dir with
  | across =>
    obtain ⟨x, hx, rfl⟩ := Option.map_eq_some_iff.1 h
    simp only [cell, Cell.along, hsum hx]
  | down =>
    obtain ⟨y, hy, rfl⟩ := Option.map_eq_some_iff.1 h
    simp only [cell, Cell.along, hsum hy]

end Spot

namespace Board

open Crossword

variable {b : Board} {c : Cell}

/-- No tile lies in the very last row or column of the machine numbers. -/
def Clear (b : Board) : Prop := ∀ p ∈ b.placed, p.x < Int32.maxValue ∧ p.y < Int32.maxValue

theorem Clear.range (hclear : b.Clear) (hin : b.Inside) (hc : Occupied b.placed c) :
    (0 ≤ c.x ∧ c.x < Int32.maxValue.toInt) ∧ 0 ≤ c.y ∧ c.y < Int32.maxValue.toInt := by
  obtain ⟨p, hp, rfl⟩ := hc
  obtain ⟨hx, hy⟩ := hclear p hp
  have hgrid := hin p hp
  simp only [Grid.contains, Bool.and_eq_true, decide_eq_true_eq] at hgrid
  obtain ⟨⟨⟨hx', hy'⟩, -⟩, -⟩ := hgrid
  exact ⟨⟨hx', Int32.lt_iff_toInt_lt.1 hx⟩, hy', Int32.lt_iff_toInt_lt.1 hy⟩

theorem Clear.along? (hclear : b.Clear) (hin : b.Inside) {s : Spot} {n : Int32}
    (hs : Occupied b.placed s.cell) (hn : n = 1 ∨ n = -1) (dir : Direction) :
    ∃ s', s.along? n dir = some s' ∧ s'.cell = s.cell.along dir n.toInt := by
  obtain ⟨⟨hx, hx'⟩, hy, hy'⟩ := hclear.range hin hs
  have hsum {m : Int32} (hlow : 0 ≤ m.toInt) (hhigh : m.toInt < Int32.maxValue.toInt) :
      Spot.sum? m n = some (m + n) := by
    have hmin : Int32.minValue.toInt ≤ -1 := by decide
    have hone : n.toInt = 1 ∨ n.toInt = -1 := hn.imp (congrArg Int32.toInt) (congrArg Int32.toInt)
    exact Spot.sum?_of_range (by omega) (by omega)
  have hsome : ∃ s', s.along? n dir = some s' := by
    cases dir with
    | across => exact ⟨_, by rw [Spot.along?, hsum hx hx']; rfl⟩
    | down => exact ⟨_, by rw [Spot.along?, hsum hy hy']; rfl⟩
  obtain ⟨s', hs'⟩ := hsome
  exact ⟨s', hs', Spot.cell_of_along? hs'⟩

end Board

end TileRace
