import TileRace.Game.Turn
import TileRace.Time

namespace TileRace

/-- A game at work: the messages waiting for it and the time at which it counts as idle. One that
has failed does nothing more and tells nobody. -/
structure Session where
  game : Game
  inbox : List Message := []
  deadline : Nat
  cancelled : Bool := false
  failed : Bool := false

namespace Session

def start (g : Game) (now : Nat) : Session :=
  { game := g, deadline := Time.due now now g.settings.idle }

inductive Act where
  | handle
  | expire
  | halt
  deriving DecidableEq, Repr

/-- What an act leaves behind. A session that has ended is `none`. -/
structure Result where
  session : Option Session
  out : List Message
  award : Option Award := none

/-- Asking for the board again does not count as activity. After anything else the deadline is set
anew, if the clock does not end before. -/
def deadlineAfter? (s : Session) (k : Kind) (now : Nat) : Option Nat :=
  if k = .refreshGameBoard then some s.deadline
  else if now + s.game.settings.idle ≤ Time.last then some (now + s.game.settings.idle)
  else none

def idleNotice : String := "the game was deleted for being idle"

/-- Does an act, if it is its time. The last message of a session says that the game is gone, unless
the session fails. -/
def act (now : Nat) (s : Session) (a : Act) : Option Result :=
  if s.failed then none else match a with
  | .handle => match s.inbox with
    | [] => none
    | m :: rest =>
      let t := s.game.handle m
      some (match s.deadlineAfter? m.kind now with
        | none =>
          { session := some { s with game := t.game, inbox := [], failed := true }
            out := t.out
            award := t.award }
        | some deadline => if t.keep then
            { session := some { s with game := t.game, inbox := rest, deadline }
              out := t.out
              award := t.award }
          else { session := none, out := t.out ++ [t.game.deleted], award := t.award })
  | .expire =>
    if s.deadline ≤ now then
      some { session := none, out := s.game.leaveAll idleNotice ++ [s.game.deleted] }
    else none
  | .halt =>
    if s.cancelled then some { session := none, out := [s.game.deleted] } else none

def timer? (s : Session) : Option Nat := if s.failed then none else some s.deadline

end Session

end TileRace
