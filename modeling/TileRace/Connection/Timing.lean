import TileRace.Text.Duration
import TileRace.Time

namespace TileRace

/-- The periods of a connection, in nanoseconds: the longest wait for a frame, the longest write,
the times between pings and between hints that the session is alive, and the time without traffic
after which the connection is closed. -/
structure Timing where
  read : Nat := 60 * Time.second
  write : Nat := 10 * Time.second
  ping : Nat := 54 * Time.second
  hint : Nat := 600 * Time.second
  idle : Nat := 900 * Time.second
  deriving DecidableEq, Repr, Inhabited

inductive Period where
  | read | write | ping | hint | idle
  deriving DecidableEq, Repr

def Period.name : Period → String
  | .read => "read timeout"
  | .write => "write timeout"
  | .ping => "ping period"
  | .hint => "http ping period"
  | .idle => "idle period"

inductive TimingError where
  | notPositive (p : Period)
  | pingTooSlow (ping read : Nat)
  deriving DecidableEq, Repr

def TimingError.message : TimingError → String
  | .notPositive p => s!"{p.name} must be positive"
  | .pingTooSlow ping read =>
    s!"ping period ({Text.duration ping}) must be less than read timeout ({Text.duration read})"

namespace Timing

def period (t : Timing) : Period → Nat
  | .read => t.read
  | .write => t.write
  | .ping => t.ping
  | .hint => t.hint
  | .idle => t.idle

def validate (t : Timing) : Except TimingError Unit :=
  match [Period.read, .write, .ping, .hint, .idle].find? fun p => t.period p = 0 with
  | some p => .error (.notPositive p)
  | none => if t.read ≤ t.ping then .error (.pingTooSlow t.ping t.read) else .ok ()

end Timing

end TileRace
