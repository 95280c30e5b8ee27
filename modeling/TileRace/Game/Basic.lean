import TileRace.Board.Basic
import TileRace.Dictionary
import TileRace.Message
import TileRace.Shuffle.Basic
import TileRace.Time

namespace TileRace

/-- What all games of a server have in common. Times are in nanoseconds. -/
structure Settings where
  maxPlayers : UInt64 := 8
  handSize : UInt64 := 21
  letters : String := standardLetters
  idle : Nat := 3600 * Time.second
  prize : UInt32 := 10
  shuffle : ShuffleMode := .identity

inductive SetupError where
  | noPlayers
  | noStartingTiles
  | noPrize
  | notEnoughTiles (needed : UInt64) (available : Nat)
  deriving DecidableEq, Repr

def SetupError.message : SetupError → String
  | .noPlayers => "a game must allow at least one player"
  | .noStartingTiles => "players must start with at least one tile"
  | .noPrize => "the winner must earn at least one point"
  | .notEnoughTiles needed available =>
    s!"each player needs {needed} tiles but only {available} exist"

structure Seat where
  board : Board
  prize : UInt32
  deriving DecidableEq

instance : Inhabited Seat := ⟨default, 1⟩

structure Game where
  id : GameId
  createdAt : UInt64
  status : Status
  seats : Table String Seat
  pool : List Tile
  settings : Settings
  rules : Rules
  grid : Grid
  words : Dictionary
  shuffler : Shuffler

namespace Game

/-- A game that nobody has joined yet, with all tiles shuffled in the pool. -/
def setUp (id : GameId) (settings : Settings) (rules : Rules) (grid : Grid) (words : Dictionary)
    (createdAt : UInt64) : Except SetupError Game :=
  let tiles := Tile.ofLetters settings.letters
  let (pool, shuffler) := (settings.shuffle.shuffler id).shuffle tiles
  if settings.maxPlayers = 0 then .error .noPlayers
  else if settings.handSize = 0 then .error .noStartingTiles
  else if settings.prize = 0 then .error .noPrize
  else if tiles.length < settings.handSize.toNat then
    .error (.notEnoughTiles settings.handSize tiles.length)
  else .ok { id, createdAt, status := .notStarted, seats := .empty, pool, settings, rules, grid,
             words, shuffler }

def players (g : Game) : List String := g.seats.keys

def summary (g : Game) : Summary :=
  ⟨g.id, g.status, g.players, g.settings.maxPlayers, g.createdAt⟩

def poolSize (g : Game) : UInt64 := UInt64.ofNat g.pool.length

def ruleLines (g : Game) : List String :=
  [s!"up to {g.settings.maxPlayers} players",
   s!"each player starts with {g.settings.handSize} tiles",
   s!"words must be at least {g.rules.minLength} letters long",
   if g.rules.allowDuplicates then "words may be repeated"
   else "each word may only be used once",
   if g.rules.checkOnSnag then "a valid board is required to snag a tile"
   else "tiles can be snagged at any time",
   if g.rules.penalize then
     s!"the winner earns up to {g.settings.prize} points, " ++
       "one less for each failed check (at least 1)"
   else s!"the winner earns {g.settings.prize} points",
   "every other player earns 1 point"]

def toPlayer (g : Game) (k : Kind) (name : String) (socket : Option SocketId) : Message :=
  ((Message.ofKind k).withGameId g.id).forPlayer name socket

def boardMessage (g : Game) (k : Kind) (name : String) (b : Board) (socket : Option SocketId) :
    Message :=
  { g.toPlayer k name socket with
    game := some g.summary
    tiles := some b.hand
    placements := some b.placed
    tilesLeft := some g.poolSize
    grid := some b.grid
    rules := some g.rules
    ruleLines := some g.ruleLines }

def toAll (g : Game) (k : Kind) (f : String → Message → Message) : List Message :=
  g.players.map fun p => f p (g.toPlayer k p none)

def leaveAll (g : Game) (reason : String) : List Message :=
  g.toAll .leaveGame fun _ m => m.withInfo reason

def infoChanged (g : Game) : Message :=
  { (Message.ofKind .gameInfoChanged).withGameId g.id with game := some g.summary }

/-- The last message of a game. -/
def deleted (g : Game) : Message :=
  { (Message.ofKind .gameDeleted).withGameId g.id with game := some g.summary }

end Game

end TileRace
