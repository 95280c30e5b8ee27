import TileRace.Table
import TileRace.Tile

namespace TileRace

inductive BoardError where
  | duplicateTile (id : TileId)
  | unknownTile (id : TileId)
  | letterMismatch (id : TileId) (expected actual : Char)
  | repeatedTile (id : TileId)
  | outOfBounds (id : TileId) (cell : Cell)
  | collision (cell : Cell)
  deriving DecidableEq, Repr

def BoardError.message : BoardError → String
  | .duplicateTile id => s!"tile {id} is already on the board"
  | .unknownTile id => s!"tile {id} is not on the board"
  | .letterMismatch id expected actual => s!"tile {id} is '{expected}', not '{actual}'"
  | .repeatedTile id => s!"tile {id} is moved more than once"
  | .outOfBounds id c => s!"tile {id} cannot be placed outside the board at ({c.x}, {c.y})"
  | .collision c => s!"more than one tile would be at ({c.x}, {c.y})"

/-- The tiles of one player. The hand is kept by id, with the ids in the order in which they were
drawn. The tiles on the grid are kept by id, and once more by cell, in columns. -/
structure Board where
  grid : Grid
  unused : Table TileId Tile
  order : List TileId
  used : Table TileId Placement
  index : Table Int (Table Int Tile)
  deriving DecidableEq

namespace Placement

def insert (before : Cell → Cell → Bool) (p : Placement) : List Placement → List Placement
  | [] => [p]
  | q :: l => if before p.cell q.cell then p :: q :: l else q :: insert before p l

def sort (before : Cell → Cell → Bool) (ps : List Placement) : List Placement :=
  ps.foldr (insert before) []

end Placement

namespace Board

def empty (g : Grid) : Board := ⟨g, .empty, [], .empty, .empty⟩

instance : Inhabited Board := ⟨empty default⟩

def hand (b : Board) : List Tile := b.order.filterMap b.unused.get?

def placed (b : Board) : List Placement := Placement.sort Cell.rowBefore b.used.values

def owned? (b : Board) (id : TileId) : Option Tile :=
  match b.unused.get? id with
  | some t => some t
  | none => (b.used.get? id).map (·.tile)

def tileAt (b : Board) (c : Cell) : Option Tile := (b.index.get? c.x).bind (·.get? c.y)

def size (b : Board) : Nat := b.unused.size + b.used.size

def hold (b : Board) (t : Tile) : Board :=
  { b with unused := b.unused.insert t.id t, order := b.order ++ [t.id] }

def add (b : Board) (t : Tile) : Except BoardError Board :=
  if (b.owned? t.id).isSome then .error (.duplicateTile t.id) else .ok (b.hold t)

def ofTiles (g : Grid) (ts : List Tile) : Except BoardError Board :=
  ts.foldlM add (empty g)

def place (b : Board) (p : Placement) : Board :=
  let column := (b.index.get? p.cell.x).getD .empty
  { b with
    used := b.used.insert p.tile.id p
    index := b.index.insert p.cell.x (column.insert p.cell.y p.tile) }

/-- Empties a cell. A column goes with its last tile. -/
def vacate (b : Board) (c : Cell) : Board :=
  match b.index.get? c.x with
  | none => b
  | some column =>
    let column := column.erase c.y
    { b with
      index := if column.size = 0 then b.index.erase c.x else b.index.insert c.x column }

def take (b : Board) (id : TileId) : Option Tile × Board :=
  match b.unused.get? id with
  | some t =>
    (some t, { b with unused := b.unused.erase id, order := b.order.filter (· ≠ id) })
  | none => match b.used.get? id with
    | some p => (some p.tile, { b with used := b.used.erase id }.vacate p.cell)
    | none => (none, b)

/-- A tile may be named only by its owner, and with its own letter. -/
def check (b : Board) (t : Tile) : Except BoardError Unit :=
  match b.owned? t.id with
  | none => .error (.unknownTile t.id)
  | some o =>
    if o.letter = t.letter then .ok () else .error (.letterMismatch t.id o.letter t.letter)

def remove (b : Board) (t : Tile) : Except BoardError Board := do
  b.check t
  return (b.take t.id).2

def checkEach (b : Board) (moving : List TileId) (targets : List Cell) :
    List Placement → Except BoardError Unit
  | [] => .ok ()
  | p :: ps => do
    b.check p.tile
    if p.tile.id ∈ moving then throw (.repeatedTile p.tile.id)
    if !b.grid.contains p.cell then throw (.outOfBounds p.tile.id p.cell)
    if p.cell ∈ targets then throw (.collision p.cell)
    b.checkEach (p.tile.id :: moving) (p.cell :: targets) ps

/-- The first cell of a batch that is taken by a tile outside the batch. -/
def obstacle? (b : Board) (ps : List Placement) : Option Cell :=
  (ps.find? fun p => match b.tileAt p.cell with
    | some t => t.id ∉ ps.map (·.tile.id)
    | none => false).map (·.cell)

def takeAll (b : Board) : List TileId → List Tile × Board
  | [] => ([], b)
  | id :: ids =>
    let (found, b) := b.take id
    let (ts, b) := b.takeAll ids
    (found.toList ++ ts, b)

/-- Moves a batch of tiles at once: all of them, or none. A tile may go to a cell that another
tile of the batch leaves. -/
def move (b : Board) (ps : List Placement) : Except BoardError Board := do
  b.checkEach [] [] ps
  match b.obstacle? ps with
  | some c => throw (.collision c)
  | none =>
    let (ts, b) := b.takeAll (ps.map (·.tile.id))
    return (ts.zip ps).foldl (fun b e => b.place { e.2 with tile := e.1 }) b

def evict (b : Board) : List Placement → List Tile × Board
  | [] => ([], b)
  | p :: ps => match b.take p.tile.id with
    | (some t, b) =>
      let (ts, b) := (b.hold t).evict ps
      (t :: ts, b)
    | (none, b) => b.evict ps

/-- Changes the grid. Tiles that no longer fit go back to the end of the hand, in row order. -/
def resize (b : Board) (g : Grid) : Board × List Tile :=
  let outside := Placement.sort Cell.rowBefore (b.used.values.filter fun p => !g.contains p.cell)
  let (moved, b) := { b with grid := g }.evict outside
  (b, moved)

end Board

end TileRace
