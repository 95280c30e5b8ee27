import TileRace.Game.Session

namespace TileRace

inductive RegistryError where
  | atCapacity (max : UInt64)
  | missingGrid
  | emptyGrid
  | missingRules
  | missingGameId
  | unknownGame (id : GameId)
  | gameClosed (id : GameId)
  | setup (e : SetupError)
  deriving DecidableEq, Repr

namespace RegistryError

def message : RegistryError → String
  | .atCapacity max => s!"the maximum of {max} games are already running"
  | .missingGrid => "missing board config"
  | .emptyGrid => "board must have at least one row and column"
  | .missingRules => "missing game rules"
  | .missingGameId => "missing game id"
  | .unknownGame id => s!"no game with id {id}"
  | .gameClosed id => s!"game {id} is shutting down"
  | .setup e => s!"could not create game: {e.message}"

def isWarning : RegistryError → Bool
  | .atCapacity _ | .setup _ => true
  | _ => false

def kind (e : RegistryError) : Kind := if e.isWarning then .socketWarning else .socketError

end RegistryError

/-- The games of a server. A room is a registered id and the session that was started for it;
sessions have serial numbers, so that an id can be used again. A room whose session has ended or
failed stays until it is removed. A session keeps its place in `places` until it does not run any
more and its room is removed. -/
structure Registry where
  maxGames : UInt64 := 64
  settings : Settings := {}
  words : Dictionary := default
  capacity : Nat := 1
  rooms : Table GameId Nat := .empty
  sessions : Table Nat Session := .empty
  places : List Nat := []
  started : Nat := 0
  reports : List (Nat × Message) := []
  awards : List Award := []
  cancelled : Bool := false

namespace Registry

def size (r : Registry) : Nat := r.rooms.size

def isFull (r : Registry) : Bool := r.maxGames.toNat ≤ r.size

def contains (r : Registry) (id : GameId) : Bool := r.rooms.contains id

/-- A session runs until it has ended or failed. -/
def runs (r : Registry) (n : Nat) : Bool := (r.sessions.get? n).any (!·.failed)

/-- The first number from `n` on that is missing in a sorted list. -/
def firstMissing (n : GameId) : List GameId → GameId
  | [] => n
  | k :: ks => if k = n then firstMissing (n + 1) ks else n

/-- The lowest positive id that is free. -/
def nextId (r : Registry) : GameId := firstMissing 1 r.rooms.keys

structure Created where
  id : GameId
  session : Nat
  join : Message
  registry : Registry

def create (r : Registry) (now : Nat) (m : Message) : Except RegistryError Created := do
  if r.isFull then throw (.atCapacity r.maxGames)
  match m.grid with
  | none => throw .missingGrid
  | some grid =>
    if !grid.isValid then throw .emptyGrid
    match m.rules with
    | none => throw .missingRules
    | some rules =>
      let id := r.nextId
      let createdAt := UInt64.ofNat (now / Time.millisecond)
      let game ← (Game.setUp id r.settings rules grid r.words createdAt).mapError .setup
      let session := { Session.start game now with cancelled := r.cancelled }
      return {
        id
        session := r.started
        join := { m.reply .joinGame with gameId := some id, grid := some grid }
        registry := { r with
          rooms := r.rooms.insert id r.started
          sessions := r.sessions.insert r.started session
          places := r.places ++ [r.started]
          started := r.started + 1 } }

def find (r : Registry) (m : Message) : Except RegistryError Nat :=
  match m.gameId with
  | none => .error .missingGameId
  | some id => match r.rooms.get? id with
    | none => .error (.unknownGame id)
    | some n => .ok n

inductive Delivery where
  | accepted (r : Registry)
  | full
  | ended

/-- Puts a message into the inbox of a session, if there is space. -/
def deliver (r : Registry) (n : Nat) (m : Message) : Delivery :=
  match r.sessions.get? n with
  | none => .ended
  | some s =>
    if s.failed then .ended
    else if s.inbox.length < r.capacity then
      .accepted { r with
        sessions := r.sessions.modify n fun s => { s with inbox := s.inbox ++ [m] } }
    else .full

/-- Takes a session out of its place, which the one in the last place moves to. -/
def vacate (n : Nat) (places : List Nat) : List Nat :=
  match places.getLast? with
  | some last =>
    if n ∈ places then places.dropLast.map fun k => if k = n then last else k else places
  | none => places

def remove (r : Registry) (id : GameId) : Registry :=
  match r.rooms.get? id with
  | none => r
  | some n => { r with
      rooms := r.rooms.erase id
      sessions := r.sessions.modify n fun s => { s with cancelled := true }
      places := if r.runs n then r.places else vacate n r.places }

/-- Forgets a game if there is one with this id, and says whether there was. -/
def close (r : Registry) (id : GameId) : Bool × Registry :=
  match r.rooms.get? id with
  | none => (false, r)
  | some _ => (true, r.remove id)

/-- Stops all games: the one in the last place first, then the others in order. -/
def cancel (r : Registry) : Registry :=
  { r with
    cancelled := true
    sessions := r.sessions.map fun _ s => { s with cancelled := true }
    places := r.places.getLast?.toList ++ r.places.dropLast }

def act (r : Registry) (now n : Nat) (a : Session.Act) : Option Registry :=
  match r.sessions.get? n with
  | none => none
  | some s => (s.act now a).map fun result => { r with
      sessions := match result.session with
        | some s => r.sessions.insert n s
        | none => r.sessions.erase n
      places :=
        if result.session.any (!·.failed) ∨ n ∈ r.rooms.values then r.places
        else vacate n r.places
      reports := r.reports ++ result.out.map (n, ·)
      awards := r.awards ++ result.award.toList }

def takeReport (r : Registry) (n : Nat) : Option (Message × Registry) :=
  (r.reports.lookup n).map fun m => (m, { r with
    reports := r.reports.eraseP (·.1 = n) })

end Registry

end TileRace
