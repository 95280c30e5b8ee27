import TileRace.Table

namespace TileRace

abbrev Award := Table String UInt32

/-- Points kept for players. A store that is out of order takes no awards. -/
structure Scores where
  totals : Table String Nat := .empty
  outOfOrder : Bool := false

instance : Inhabited Scores := ⟨.empty, false⟩

namespace Scores

def total (s : Scores) (player : String) : Nat := (s.totals.get? player).getD 0

def credit (totals : Table String Nat) (a : Award) : Table String Nat :=
  a.entries.foldl (fun t e => t.insert e.1 ((t.get? e.1).getD 0 + e.2.toNat)) totals

def award (s : Scores) (a : Award) : Scores :=
  if s.outOfOrder then s else { s with totals := credit s.totals a }

end Scores

end TileRace
