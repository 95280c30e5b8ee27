import TileRace.Lobby
import TileRace.Query

namespace TileRace.Upgrade

inductive Answer where
  | badRequest
  | admitted (socket : SocketId)
  | refused (e : LobbyError)
  deriving DecidableEq, Repr

def queryOf? (target : String) : Option String :=
  match (target.toList.takeWhile (· ≠ '#')).dropWhile (· ≠ '?') with
  | [] => none
  | _ :: query => some (String.ofList query)

def nameOf? (target : String) : Option String :=
  (queryOf? target).bind (Query.parameter? · "name")

def noName : String := "missing name query parameter"

/-- Opens a connection to a target, if the target names a player whom the lobby admits. -/
def request (l : Lobby) (target : String) : Answer × Lobby :=
  match nameOf? target with
  | none => (.badRequest, l)
  | some name =>
    if !Lobby.isNamed name then (.refused .missingPlayerName, l)
    else match l.enroll name with
      | .ok (id, l, _) => (.admitted id, l)
      | .error e => (.refused e, l)

def requests (l : Lobby) : List String → List Answer
  | [] => []
  | t :: ts =>
    let (a, l) := request l t
    a :: requests l ts

end TileRace.Upgrade
