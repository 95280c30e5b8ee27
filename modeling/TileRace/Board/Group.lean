import TileRace.Board.Basic

namespace TileRace.Board

structure Walk where
  seen : List TileId
  stack : List Cell

def visit (b : Board) (w : Walk) (c : Cell) : Walk :=
  match b.tileAt c with
  | some t => if t.id ∈ w.seen then w else ⟨t.id :: w.seen, c :: w.stack⟩
  | none => w

/-- Walks on to touching cells, leaving at most `n` cells. -/
def walk (b : Board) : Nat → Walk → Walk
  | 0, w => w
  | n + 1, w => match w.stack with
    | [] => w
    | c :: rest => b.walk n ([c.left, c.right, c.above, c.below].foldl b.visit ⟨w.seen, rest⟩)

/-- Every tile is placed and the placed tiles hang together. -/
def isSingleGroup (b : Board) : Bool :=
  b.unused.size = 0 && match b.used.values with
    | [] => false
    | p :: _ => (b.walk b.used.size ⟨[p.tile.id], [p.cell]⟩).seen.length = b.used.size

end TileRace.Board
