namespace TileRace

abbrev TileId := UInt32

@[ext]
structure Tile where
  id : TileId
  letter : Char
  deriving DecidableEq, Repr, Inhabited

/-- How often each letter occurs in the standard set of 144 tiles. -/
def standardCounts : List (Char × Nat) :=
  [('A', 13), ('B', 3), ('C', 3), ('D', 6), ('E', 18), ('F', 3), ('G', 4), ('H', 3), ('I', 12),
   ('J', 2), ('K', 2), ('L', 5), ('M', 3), ('N', 8), ('O', 11), ('P', 3), ('Q', 2), ('R', 9),
   ('S', 6), ('T', 9), ('U', 6), ('V', 3), ('W', 3), ('X', 2), ('Y', 3), ('Z', 2)]

def standardLetters : String :=
  String.ofList (standardCounts.flatMap fun c => List.replicate c.2 c.1)

def Tile.number (id : TileId) : List Char → List Tile
  | [] => []
  | c :: cs => ⟨id, c⟩ :: number (id + 1) cs

/-- One tile for each ASCII letter, in upper case, with ids from 1. -/
def Tile.ofLetters (letters : String) : List Tile :=
  Tile.number 1 ((letters.toList.filter Char.isAlpha).map Char.toUpper)

@[ext]
structure Cell where
  x : Int
  y : Int
  deriving DecidableEq, Repr

namespace Cell

def right (c : Cell) : Cell := ⟨c.x + 1, c.y⟩
def left (c : Cell) : Cell := ⟨c.x - 1, c.y⟩
def below (c : Cell) : Cell := ⟨c.x, c.y + 1⟩
def above (c : Cell) : Cell := ⟨c.x, c.y - 1⟩

def rowBefore (c d : Cell) : Bool := c.y < d.y || (c.y = d.y && c.x < d.x)

def columnBefore (c d : Cell) : Bool := c.x < d.x || (c.x = d.x && c.y < d.y)

end Cell

structure Placement where
  tile : Tile
  x : Int32
  y : Int32
  deriving DecidableEq, Repr, Inhabited

def Placement.cell (p : Placement) : Cell := ⟨p.x.toInt, p.y.toInt⟩

/-- The size of the area on which tiles may lie. -/
structure Grid where
  rows : UInt64
  columns : UInt64
  deriving DecidableEq, Repr

namespace Grid

def standard : Grid := ⟨32, 32⟩

instance : Inhabited Grid := ⟨standard⟩

def contains (g : Grid) (c : Cell) : Bool :=
  0 ≤ c.x && 0 ≤ c.y && c.x < g.columns.toNat && c.y < g.rows.toNat

def isValid (g : Grid) : Bool := 0 < g.rows && 0 < g.columns

end Grid

end TileRace
