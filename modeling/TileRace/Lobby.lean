import TileRace.Connection.Timing
import TileRace.Registry
import TileRace.Text.Blank

namespace TileRace

inductive LobbyError where
  | missingPlayerName
  | tooManySockets (max : UInt64)
  | tooManyPlayerSockets (player : String) (max : UInt64)
  | timing (e : TimingError)
  | closed
  deriving DecidableEq, Repr

def LobbyError.message : LobbyError → String
  | .missingPlayerName => "missing player name"
  | .tooManySockets max => s!"the lobby is full ({max} connections)"
  | .tooManyPlayerSockets player max => s!"{player} already has the maximum of {max} connections"
  | .timing e => s!"invalid socket config: {e.message}"
  | .closed => "the lobby is closed"

/-- An admitted connection: its player and the game it is in. -/
structure Guest where
  name : String
  game : Option GameId := none
  deriving DecidableEq, Repr, Inhabited

/-- Something that the lobby still has to do: to send a message to a connection, or to put one
into the inbox of a session, where a session that has ended is answered for instead. -/
inductive Duty where
  | tell (socket : SocketId) (m : Message)
  | pass (session : Nat) (m : Message) (socket : SocketId) (answer : Message)
  deriving DecidableEq

/-- Where connections and games meet. -/
structure Lobby where
  maxSockets : UInt64 := 1024
  maxPlayerSockets : UInt64 := 3
  games : Registry := {}
  guests : Table SocketId Guest := .empty
  infos : Table GameId Summary := .empty
  lastSocket : SocketId := 0

namespace Lobby

def infosMessage (l : Lobby) : Message :=
  { Message.ofKind .gameInfos with games := some l.infos.values }

/-- A name of blanks alone is no name. -/
def isNamed (name : String) : Bool := Text.trim name.toList ≠ []

def guestsNamed (l : Lobby) (name : String) : Nat :=
  (l.guests.values.filter (·.name = name)).length

def checkLimits (l : Lobby) (name : String) : Except LobbyError Unit :=
  if l.maxSockets.toNat ≤ l.guests.size then .error (.tooManySockets l.maxSockets)
  else if l.maxPlayerSockets.toNat ≤ l.guestsNamed name then
    .error (.tooManyPlayerSockets name l.maxPlayerSockets)
  else .ok ()

/-- Admits a connection under the limits: it gets the next number and the list of games. -/
def enroll (l : Lobby) (name : String) : Except LobbyError (SocketId × Lobby × List Duty) :=
  match l.checkLimits name with
  | .error e => .error e
  | .ok () =>
    let id := l.lastSocket + 1
    let l := { l with lastSocket := id, guests := l.guests.insert id { name } }
    .ok (id, l, [.tell id l.infosMessage])

def broadcastInfos (l : Lobby) : List Duty := l.guests.keys.map (.tell · l.infosMessage)

def setGame (l : Lobby) (socket : SocketId) (game : Option GameId) : Lobby :=
  { l with guests := l.guests.modify socket fun g => { g with game := game } }

def refusal (request : Message) (e : RegistryError) : Message :=
  (request.reply e.kind).withInfo e.message

def create (l : Lobby) (now : Nat) (socket : SocketId) (m : Message) : Lobby × List Duty :=
  match l.games.create now m with
  | .error e => (l, [.tell socket (refusal m e)])
  | .ok c => ({ l with games := c.registry },
      [.pass c.session c.join socket (refusal m (.gameClosed c.id))])

def forward (l : Lobby) (socket : SocketId) (m : Message) : List Duty :=
  match l.games.find m with
  | .error e => [.tell socket (refusal m e)]
  | .ok n => [.pass n m socket (refusal m (.gameClosed (m.gameId.getD 0)))]

def leave (l : Lobby) (socket : SocketId) (m : Message) : Lobby × List Duty :=
  let left := (l.guests.get? socket).bind (·.game)
  let text := match left with
    | some id => s!"left game {id}"
    | none => "not in a game"
  (l.setGame socket none,
   [.tell socket { m.reply .leaveGame with gameId := left, info := some text }])

/-- Handles a request from a connection. -/
def receive (l : Lobby) (now : Nat) (m : Message) : Lobby × List Duty :=
  match m.socket with
  | none => (l, [])
  | some socket => match m.kind with
    | .createGame => l.create now socket m
    | .leaveGame => l.leave socket m
    | .gameInfos => (l, [.tell socket l.infosMessage])
    | .joinGame | .deleteGame | .changeGameStatus | .snagGameTile | .swapGameTile
    | .moveGameTiles | .gameChat | .refreshGameBoard => (l, l.forward socket m)
    | k => (l, [.tell socket ((m.reply .socketError).withInfo
        s!"cannot handle message type {k.code}")])

def forget (l : Lobby) (socket : SocketId) : Lobby := { l with guests := l.guests.erase socket }

/-- The connections that a game's message to a player goes to: the one it is meant for if that is
the player's, and otherwise all of the player's that are in the game. -/
def targets (l : Lobby) (name : String) (m : Message) : List SocketId :=
  match m.socket.filter fun s => (l.guests.get? s).any (·.name = name) with
  | some s => [s]
  | none => (l.guests.entries.filter fun e => e.2.name = name ∧ e.2.game = m.gameId).map (·.1)

/-- A reply to a join puts a connection into a game, a notice to leave takes it out again. -/
def follow (l : Lobby) (m : Message) (socket : SocketId) : Lobby :=
  match m.kind with
  | .joinGame => l.setGame socket m.gameId
  | .leaveGame =>
    if (l.guests.get? socket).bind (·.game) = m.gameId then l.setGame socket none else l
  | _ => l

def route (l : Lobby) (m : Message) : Lobby × List Duty :=
  match m.player with
  | none => (l, [])
  | some name =>
    let targets := l.targets name m
    (targets.foldl (·.follow m ·) l, targets.map (.tell · m))

def deletedNotice (id : GameId) : Message :=
  ((Message.ofKind .leaveGame).withGameId id).withInfo "the game was deleted"

/-- Forgets a game that is gone, and takes the connections out of it that still are in it. -/
def deleted (l : Lobby) (id : GameId) : Lobby × List Duty :=
  let stranded := (l.guests.entries.filter fun e => e.2.game = some id).map (·.1)
  let l := { stranded.foldl (·.setGame · none) l with
    games := l.games.remove id
    infos := l.infos.erase id }
  (l, stranded.map (.tell · (deletedNotice id)) ++ l.broadcastInfos)

def report (l : Lobby) (m : Message) : Lobby × List Duty :=
  match m.kind with
  | .gameInfoChanged => match m.game with
    | none => (l, [])
    | some info =>
      let l := { l with infos := l.infos.insert info.id info }
      (l, l.broadcastInfos)
  | .gameDeleted => match m.gameId with
    | none => (l, [])
    | some id => l.deleted id
  | _ => l.route m

end Lobby

end TileRace
