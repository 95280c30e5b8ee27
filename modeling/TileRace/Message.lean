import TileRace.Summary
import TileRace.Table
import TileRace.Tile

namespace TileRace

abbrev SocketId := Nat

inductive Kind where
  | createGame | joinGame | leaveGame | deleteGame | changeGameStatus | snagGameTile
  | swapGameTile | moveGameTiles | gameChat | refreshGameBoard | gameInfos | socketInfo
  | socketWarning | socketError | socketHttpPing | gameInfoChanged | gameDeleted
  deriving DecidableEq, Repr, Inhabited

namespace Kind

def all : List Kind :=
  [.createGame, .joinGame, .leaveGame, .deleteGame, .changeGameStatus, .snagGameTile,
   .swapGameTile, .moveGameTiles, .gameChat, .refreshGameBoard, .gameInfos, .socketInfo,
   .socketWarning, .socketError, .socketHttpPing, .gameInfoChanged, .gameDeleted]

def code : Kind → UInt8
  | .createGame => 1
  | .joinGame => 2
  | .leaveGame => 3
  | .deleteGame => 4
  | .changeGameStatus => 5
  | .snagGameTile => 6
  | .swapGameTile => 7
  | .moveGameTiles => 8
  | .gameChat => 9
  | .refreshGameBoard => 10
  | .gameInfos => 11
  | .socketInfo => 12
  | .socketWarning => 13
  | .socketError => 14
  | .socketHttpPing => 15
  | .gameInfoChanged => 16
  | .gameDeleted => 17

def ofCode (n : UInt8) : Except UnknownCode Kind :=
  match all.find? (·.code = n) with
  | some k => .ok k
  | none => .error (.kind n)

def isKeepalive (k : Kind) : Bool := k = .socketHttpPing

def name : Kind → String
  | .createGame => "CreateGame"
  | .joinGame => "JoinGame"
  | .leaveGame => "LeaveGame"
  | .deleteGame => "DeleteGame"
  | .changeGameStatus => "ChangeGameStatus"
  | .snagGameTile => "SnagGameTile"
  | .swapGameTile => "SwapGameTile"
  | .moveGameTiles => "MoveGameTiles"
  | .gameChat => "GameChat"
  | .refreshGameBoard => "RefreshGameBoard"
  | .gameInfos => "GameInfos"
  | .socketInfo => "SocketInfo"
  | .socketWarning => "SocketWarning"
  | .socketError => "SocketError"
  | .socketHttpPing => "SocketHttpPing"
  | .gameInfoChanged => "GameInfoChanged"
  | .gameDeleted => "GameDeleted"

end Kind

/-- One shape for every request and event; what does not apply is absent. The socket is the
connection that a reply is meant for, and is never sent. -/
structure Message where
  kind : Kind
  info : Option String := none
  game : Option Summary := none
  games : Option (List Summary) := none
  tiles : Option (List Tile) := none
  placements : Option (List Placement) := none
  tilesLeft : Option UInt64 := none
  gameId : Option GameId := none
  player : Option String := none
  grid : Option Grid := none
  rules : Option Rules := none
  ruleLines : Option (List String) := none
  finalBoards : Option (Table String (List Placement)) := none
  socket : Option SocketId := none
  deriving DecidableEq

instance : Inhabited Message := ⟨⟨default, none, none, none, none, none, none, none, none, none,
  none, none, none, none⟩⟩

namespace Message

def ofKind (k : Kind) : Message := { kind := k }

def withInfo (m : Message) (text : String) : Message := { m with info := some text }

def withGameId (m : Message) (id : GameId) : Message := { m with gameId := some id }

def forPlayer (m : Message) (name : String) (socket : Option SocketId) : Message :=
  { m with player := some name, socket := socket }

def warning (text : String) : Message := (ofKind .socketWarning).withInfo text

def error (text : String) : Message := (ofKind .socketError).withInfo text

def reply (m : Message) (k : Kind) : Message :=
  { ofKind k with gameId := m.gameId, player := m.player, socket := m.socket }

end Message

end TileRace
