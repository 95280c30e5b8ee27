import TileRace.Lobby
import TileRace.Text.Decimal

namespace TileRace.Launch

/-- What the value of an option has to be. Small numbers are read with either sign and then
checked against their range; large ones have 64 bits and no minus sign. -/
inductive Shape where
  | text
  | path
  | small (low high : Nat)
  | large
  deriving DecidableEq, Repr

def u16 : Shape := .small 0 (UInt16.size - 1)

structure Choice where
  long : String
  short : Option Char := none
  shape : Shape

def choices : List Choice :=
  [{ long := "host", short := some 'H', shape := .text },
   { long := "port", short := some 'p', shape := u16 },
   { long := "words", short := some 'w', shape := .path },
   { long := "max-games", shape := .large },
   { long := "max-sockets", shape := .large },
   { long := "max-player-sockets", shape := .large },
   { long := "max-players", shape := .large },
   { long := "tiles-per-player", shape := .large },
   { long := "win-points", shape := .small 1 (UInt32.size - 1) },
   { long := "game-idle-secs", shape := .large },
   { long := "read-timeout-secs", shape := .large },
   { long := "write-timeout-secs", shape := .large },
   { long := "ping-secs", shape := .large },
   { long := "http-ping-secs", shape := .large },
   { long := "socket-idle-secs", shape := .large },
   { long := "seed", shape := .large }]

inductive Stop where
  | usage
  | help
  deriving DecidableEq, Repr

abbrev Given := List (String × String)

def fits (value : List Char) : Shape → Bool
  | .text => true
  | .path => value ≠ []
  | .small low high => match Text.signed? (Int64.size / 2) value with
    | some n => low ≤ n && n ≤ high
    | none => false
  | .large => (Text.unsigned? UInt64.size value).isSome

def take (given : Given) (c : Choice) (value : List Char) : Except Stop Given :=
  if given.any (·.1 = c.long) ∨ !fits value c.shape then .error .usage
  else .ok ((c.long, String.ofList value) :: given)

/-- Whether an argument of its own can be a value: it begins with no dash, or is one. -/
def isValue (arg : List Char) : Bool := arg.head? ≠ some '-' || arg = ['-']

inductive Flag where
  | option (c : Choice) (value : Option (List Char))
  | help
  | unknown

def longFlag (body : List Char) : Flag :=
  let name := String.ofList (body.takeWhile (· ≠ '='))
  match body.dropWhile (· ≠ '=') with
  | [] =>
    if name = "help" ∨ name = "version" then .help
    else match choices.find? (·.long = name) with
      | some c => .option c none
      | none => .unknown
  | _ :: value => match choices.find? (·.long = name) with
    | some c => .option c (some value)
    | none => .unknown

def shortFlag (c : Char) (rest : List Char) : Flag :=
  if c = 'h' ∨ c = 'V' then .help
  else match choices.find? (·.short = some c), rest with
    | none, _ => .unknown
    | some o, [] => .option o none
    | some o, '=' :: value => .option o (some value)
    | some o, value => .option o (some value)

def flag : List Char → Flag
  | '-' :: '-' :: body => longFlag body
  | '-' :: c :: rest => shortFlag c rest
  | _ => .unknown

/-- Reads arguments from left to right. The first that is wrong, or asks for help, ends it. -/
def read (given : Given) : List (List Char) → Except Stop Given
  | [] => .ok given
  | ['-', '-'] :: rest => if rest.isEmpty then .ok given else .error .usage
  | arg :: rest => match flag arg, rest with
    | .unknown, _ => .error .usage
    | .help, _ => .error .help
    | .option c (some value), rest => match take given c value with
      | .ok given => read given rest
      | .error e => .error e
    | .option _ none, [] => .error .usage
    | .option c none, value :: rest =>
      if isValue value then match take given c value with
        | .ok given => read given rest
        | .error e => .error e
      else .error .usage

structure Options where
  host : String
  tcpPort : Nat
  words : String
  settings : Settings
  timing : Timing
  maxGames : UInt64
  maxSockets : UInt64
  maxPlayerSockets : UInt64
  seed : Option UInt64

def textOf (given : Given) (name default : String) : String := (given.lookup name).getD default

def numberOf (given : Given) (name : String) (default : Nat) : Nat :=
  match (given.lookup name).bind fun v => Text.signed? UInt64.size v.toList with
  | some n => n.toNat
  | none => default

def optionsOf (given : Given) : Options :=
  let number := numberOf given
  { host := textOf given "host" "127.0.0.1"
    tcpPort := number "port" 8080
    words := textOf given "words" "words.txt"
    settings := {
      maxPlayers := UInt64.ofNat (number "max-players" 8)
      handSize := UInt64.ofNat (number "tiles-per-player" 21)
      prize := UInt32.ofNat (number "win-points" 10)
      idle := number "game-idle-secs" 3600 * Time.second }
    timing := {
      read := number "read-timeout-secs" 60 * Time.second
      write := number "write-timeout-secs" 10 * Time.second
      ping := number "ping-secs" 54 * Time.second
      hint := number "http-ping-secs" 600 * Time.second
      idle := number "socket-idle-secs" 900 * Time.second }
    maxGames := UInt64.ofNat (number "max-games" 64)
    maxSockets := UInt64.ofNat (number "max-sockets" 1024)
    maxPlayerSockets := UInt64.ofNat (number "max-player-sockets" 3)
    seed := (given.lookup "seed").map fun _ => UInt64.ofNat (number "seed" 0) }

def options (args : List String) : Except Stop Options :=
  (read [] (args.map String.toList)).map optionsOf

def Options.address (o : Options) : String := s!"{o.host}:{o.tcpPort}"

def prepare (o : Options) (file : Except Dictionary.ReadError ByteArray) :
    Except String Dictionary := do
  let words ← (file.bind Dictionary.ofBytes).mapError fun e =>
    s!"could not read {o.words}: {e.message}"
  o.timing.validate.mapError fun e => (LobbyError.timing e).message
  return words

inductive Outcome where
  | usage
  | help
  | failed (text : String)
  | listening (address : String)
  deriving DecidableEq, Repr

def run (file : String → Except Dictionary.ReadError ByteArray) (args : List String) : Outcome :=
  match options args with
  | .error .usage => .usage
  | .error .help => .help
  | .ok o => match prepare o (file o.words) with
    | .error text => .failed text
    | .ok _ => .listening o.address

end TileRace.Launch
