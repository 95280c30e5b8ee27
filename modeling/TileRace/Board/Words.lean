import TileRace.Board.Basic

namespace TileRace.Board

def letters (b : Board) (next : Cell → Cell) : Nat → Cell → List Char
  | 0, _ => []
  | n + 1, c => match b.tileAt c with
    | some t => t.letter :: b.letters next n (next c)
    | none => []

def runs (b : Board) (next back : Cell → Cell) (ps : List Placement) : List String :=
  let first := ps.filter fun p => (b.tileAt (back p.cell)).isNone
  let found := first.map fun p => b.letters next b.used.size p.cell
  (found.filter (2 ≤ ·.length)).map String.ofList

/-- Horizontal words row by row, then vertical words column by column. -/
def words (b : Board) : List String :=
  b.runs Cell.right Cell.left b.placed ++
    b.runs Cell.below Cell.above (Placement.sort Cell.columnBefore b.placed)

end TileRace.Board
