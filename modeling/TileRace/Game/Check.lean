import TileRace.Board.Group
import TileRace.Board.Words
import TileRace.Dictionary
import TileRace.Summary

namespace TileRace

inductive Fault where
  | unplaced (n : Nat)
  | notConnected
  | short (word : String) (minLength : UInt64)
  | repeated (word : String)
  | invalid (words : List String)
  deriving DecidableEq, Repr

def Fault.message : Fault → String
  | .unplaced n => s!"place your {n} unused tiles first"
  | .notConnected => "tiles must form one connected group"
  | .short w n => s!"{w} is shorter than {n} letters"
  | .repeated w => s!"{w} is used more than once"
  | .invalid ws => "invalid words: " ++ String.intercalate ", " ws

def firstRepeated? (seen : List String) : List String → Option String
  | [] => none
  | w :: ws => if w ∈ seen then some w else firstRepeated? (w :: seen) ws

namespace Rules

def checkWords (r : Rules) (d : Dictionary) (words : List String) : Except Fault Unit :=
  match words.find? fun w => w.length < r.minLength.toNat with
  | some w => .error (.short w r.minLength)
  | none => match if r.allowDuplicates then none else firstRepeated? [] words with
    | some w => .error (.repeated w)
    | none => match words.filter fun w => !d.accepts w with
      | [] => .ok ()
      | ws => .error (.invalid ws)

/-- Whether a board may win, or else the first fault found. -/
def check (r : Rules) (d : Dictionary) (b : Board) : Except Fault Unit :=
  if 0 < b.unused.size then .error (.unplaced b.unused.size)
  else if !b.isSingleGroup then .error .notConnected
  else r.checkWords d b.words

end Rules

end TileRace
