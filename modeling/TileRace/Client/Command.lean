import TileRace.Message
import TileRace.Text.Blank
import TileRace.Text.Decimal
import TileRace.Text.Quoted

namespace TileRace.Client

inductive CommandError where
  | noGameId
  | noTileId
  | noLetter
  | noPlace
  | unknown (command : String)
  deriving DecidableEq, Repr

def CommandError.message : CommandError → String
  | .noGameId => "join needs a game id"
  | .noTileId => "missing tile id"
  | .noLetter => "missing tile letter"
  | .noPlace => "move needs x and y"
  | .unknown command => s!"unknown command {Text.quoted command}"

def tile (words : List (List Char)) : Except CommandError Tile :=
  match words.head?.bind Text.u32? with
  | none => .error .noTileId
  | some id => match words[1]?.bind List.head? with
    | none => .error .noLetter
    | some letter => .ok ⟨id, letter.toUpper⟩

/-- The words after the tile give a place: exactly two of them are numbers. -/
def placement (words : List (List Char)) : Except CommandError Placement := do
  let tile ← tile words
  match (words.drop 2).filterMap Text.i32? with
  | [x, y] => return ⟨tile, x, y⟩
  | _ => throw .noPlace

def wanting (s : Status) : Message :=
  { Message.ofKind .changeGameStatus with game := some ⟨0, s, [], 0, 0⟩ }

def create : Message :=
  { Message.ofKind .createGame with grid := some Grid.standard, rules := some Rules.standard }

def join (words : List (List Char)) : Except CommandError Message :=
  match words.head?.bind Text.u32? with
  | none => .error .noGameId
  | some id => .ok ((Message.ofKind .joinGame).withGameId id)

def swap (words : List (List Char)) : Except CommandError Message := do
  let tile ← tile words
  return { Message.ofKind .swapGameTile with tiles := some [tile] }

def move (words : List (List Char)) : Except CommandError Message := do
  let placement ← placement words
  return { Message.ofKind .moveGameTiles with placements := some [placement] }

def chat (words : List (List Char)) : Message :=
  (Message.ofKind .gameChat).withInfo (String.ofList ([' '].intercalate words))

def request (command : String) (words : List (List Char)) : Except CommandError Message :=
  match command with
  | "create" => .ok create
  | "join" => join words
  | "leave" => .ok (.ofKind .leaveGame)
  | "delete" => .ok (.ofKind .deleteGame)
  | "start" => .ok (wanting .inProgress)
  | "finish" => .ok (wanting .finished)
  | "snag" => .ok (.ofKind .snagGameTile)
  | "swap" => swap words
  | "move" => move words
  | "chat" => .ok (chat words)
  | "refresh" => .ok (.ofKind .refreshGameBoard)
  | "games" => .ok (.ofKind .gameInfos)
  | other => .error (.unknown other)

/-- The request that a line of input stands for. A blank line is none. -/
def parse (line : String) : Except CommandError (Option Message) :=
  match Text.fields line.toList with
  | [] => .ok none
  | command :: words => (request (String.ofList command) words).map some

end TileRace.Client
