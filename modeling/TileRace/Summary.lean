namespace TileRace

abbrev GameId := UInt32

/-- The word rules of one game. -/
structure Rules where
  checkOnSnag : Bool
  penalize : Bool
  minLength : UInt64
  allowDuplicates : Bool
  deriving DecidableEq, Repr

def Rules.standard : Rules := ⟨true, false, 2, true⟩

instance : Inhabited Rules := ⟨.standard⟩

inductive UnknownCode where
  | kind (value : UInt8)
  | status (value : UInt8)
  deriving DecidableEq, Repr

def UnknownCode.message : UnknownCode → String
  | .kind v => s!"unknown message type discriminant: {v}"
  | .status v => s!"unknown game status discriminant: {v}"

inductive Status where
  | notStarted
  | inProgress
  | finished
  | finishedAllowMove
  deriving DecidableEq, Repr, Inhabited

namespace Status

def all : List Status := [.notStarted, .inProgress, .finished, .finishedAllowMove]

def code : Status → UInt8
  | .notStarted => 1
  | .inProgress => 2
  | .finished => 3
  | .finishedAllowMove => 4

def ofCode (n : UInt8) : Except UnknownCode Status :=
  match all.find? (·.code = n) with
  | some s => .ok s
  | none => .error (.status n)

def isFinished : Status → Bool
  | .finished | .finishedAllowMove => true
  | _ => false

def text : Status → String
  | .notStarted => "not started"
  | .inProgress => "in progress"
  | .finished => "finished"
  | .finishedAllowMove => "finished (moves allowed)"

end Status

structure Summary where
  id : GameId
  status : Status
  players : List String
  capacity : UInt64
  createdAt : UInt64
  deriving DecidableEq, Repr, Inhabited

def Summary.canJoin (g : Summary) (player : String) : Bool :=
  g.players.contains player ||
    (g.status = .notStarted && g.players.length < g.capacity.toNat)

end TileRace
