import TileRace.Connection.Timing
import TileRace.Wire

namespace TileRace

open TileRace.Text (Symbol)

/-- A frame from a client. Text and binary frames are both read as data. -/
inductive Inbound where
  | data (xs : List Symbol)
  | ping
  | pong
  | close
  deriving DecidableEq, Repr

/-- What a client sees. -/
inductive Frame where
  | message (m : Message)
  | ping
  | pong
  | closed
  deriving DecidableEq

namespace Frame

def framed (n : Nat) : Nat := n + if n ≤ 125 then 2 else if n < UInt16.size then 4 else 10

def size : Frame → Nat
  | .message m => framed (String.ofList m.encode).utf8ByteSize
  | _ => framed 0

end Frame

/-- The far end of a connection. What is on the way to a client that does not read is in `transit`;
`room` counts the bytes for which there is still space on the way, and `limit` those for which there
is space at all. A client that has left sends nothing more; a finished one has seen the end or cut
the connection. -/
structure Client where
  muted : Bool := false
  left : Bool := false
  finished : Bool := false
  room : Nat
  limit : Nat := room
  transit : List Frame := []
  unread : List Frame := []
  deriving DecidableEq

namespace Client

def receive (c : Client) (f : Frame) : Client :=
  if c.finished then c else { c with unread := c.unread ++ [f], finished := f = .closed }

def carry (c : Client) (f : Frame) (n : Nat) : Client :=
  if c.muted then { c with room := c.room - n, transit := c.transit ++ [f] } else c.receive f

/-- Sends what there is space for of frames that wait with the bytes that are left of each, and says
what still waits. -/
def load (c : Client) : List (Frame × Nat) → Client × List (Frame × Nat)
  | [] => (c, [])
  | (f, n) :: rest =>
    if c.muted ∧ c.room < n then ({ c with room := 0 }, (f, n - c.room) :: rest)
    else (c.carry f n).load rest

/-- The next `n` frames on the way get through to a client that does not read otherwise. -/
def sip (c : Client) (n : Nat) : Client :=
  (c.transit.take n).foldl receive { c with
    transit := c.transit.drop n
    room := (c.transit.take n).foldl (fun room f => room + f.size) c.room }

def answers (c : Client) (fs : List Frame) : List Inbound :=
  if c.left ∨ c.finished then [] else (fs.filter (· = .ping)).map fun _ => .pong

end Client

inductive Reader where
  | reading (deadline : Nat)
  | offering (m : Message)
  | stopped
  deriving DecidableEq

inductive Writer where
  | ready
  | writing (deadline : Nat)
  | closing (deadline : Nat)
  | stopped
  deriving DecidableEq, Repr

/-- The writer when all that it waited for has been sent. -/
def Writer.done : Writer → Writer
  | .writing _ => .ready
  | .closing _ => .stopped
  | w => w

inductive Event where
  | inbound (m : Message)
  | closed (name : String) (socket : SocketId)
  deriving DecidableEq

inductive Intake where
  | accepting
  | full
  | shut
  deriving DecidableEq, Repr

/-- A connection and its client: a reader that passes requests on, and a writer that sends what is
queued and keeps the timers. Either of them stops the other by cancelling. What was written and is
not yet sent is `pending`. `wrote` and `heard` say whether there was real traffic since the last
check for idleness, and `tracked` is the game that the client follows, as far as what was sent to it
shows. -/
structure Link where
  socket : SocketId
  name : String
  timing : Timing
  client : Client
  arriving : List Inbound := []
  cut : Bool := false
  peerClosed : Bool := false
  cancelled : Bool := false
  tracked : Option GameId := none
  reader : Reader
  writer : Writer := .ready
  nextPing : Nat
  nextHint : Nat
  nextIdle : Nat
  wrote : Bool := false
  heard : Bool := false
  pending : List (Frame × Nat) := []
  queue : List Message := []
  accepting : Bool := true
  hungUp : Bool := false
  reported : Bool := false
  deriving DecidableEq

/-- The game that a client follows after a message was sent to it. -/
def track (game : Option GameId) (m : Message) : Option GameId :=
  match m.kind with
  | .joinGame => if m.gameId.isSome then m.gameId else game
  | .leaveGame => if m.gameId.isNone ∨ game = m.gameId then none else game
  | _ => game

namespace Link

/-- A connection begins with its timers. The writer fails if the clock ends before one of them runs
out, and the reader goes on without it. -/
def start (socket : SocketId) (name : String) (t : Timing) (room now : Nat) : Link :=
  let lasts := [t.ping, t.hint, t.idle].all (now + · ≤ Time.last)
  { socket, name, timing := t, client := { room }
    reader := .reading (Time.due now now t.read)
    writer := if lasts then .ready else .stopped
    accepting := lasts
    nextPing := now + t.ping
    nextHint := now + t.hint
    nextIdle := now + t.idle }

inductive Act where
  | readStop | readFrame | readEnd | readTimeout | offer
  | writeStop | hangUp | writeNext | sendPing | sendHint | checkIdle | overrun
  | flush | writeTimeout | closeTimeout
  | report
  deriving DecidableEq, Repr

def Act.all : List Act :=
  [.readStop, .readFrame, .readEnd, .readTimeout, .offer, .writeStop, .hangUp, .writeNext,
   .sendPing, .sendHint, .checkIdle, .overrun, .flush, .writeTimeout, .closeTimeout, .report]

/-- The request as the lobby gets it: from this player and connection, and about the game that the
client follows unless it names the game to join. -/
def stamp (l : Link) (m : Message) : Message :=
  { m with
    player := some l.name
    socket := some l.socket
    gameId := if m.kind = .joinGame ∧ m.gameId.isSome then m.gameId else l.tracked }

/-- When both halves have stopped the connection is let go, and the client sees the end after what
is on its way. -/
def letGo (l : Link) : Link :=
  if l.reader = .stopped ∧ l.writer = .stopped then
    { l with client := l.client.carry .closed 0, pending := [] }
  else l

def stopReading (l : Link) : Link := { l with reader := .stopped, cancelled := true }.letGo

/-- Sends what is pending as far as there is space. The writer goes on when nothing is left. -/
def flush (l : Link) : Link :=
  let sent := l.client.load l.pending
  { l with
    client := sent.1
    pending := sent.2
    arriving := l.arriving ++
      if l.client.muted then [] else l.client.answers (l.pending.map (·.1))
    writer := if sent.2.isEmpty then l.writer.done else l.writer }

def put (l : Link) (f : Frame) : Link := { l with pending := l.pending ++ [(f, f.size)] }.flush

def beginClose (l : Link) (now : Nat) : Link :=
  let l := { l with
    cancelled := true
    accepting := false
    queue := []
    writer := .closing (Time.due now now l.timing.write) }
  if l.cut then { l with pending := [], writer := .stopped, client := l.client.carry .closed 0 }
  else l.put .closed

def write (l : Link) (now : Nat) (f : Frame) : Link :=
  if l.cut ∨ l.peerClosed then l.beginClose now
  else { l with writer := .writing (Time.due now now l.timing.write) }.put f

/-- A timer that has run out cannot be set again, as the clock ends before. -/
def overruns (l : Link) (now : Nat) : Bool :=
  [(l.nextPing, l.timing.ping), (l.nextHint, l.timing.hint), (l.nextIdle, l.timing.idle)].any
    fun (next, period) => next ≤ now ∧ Time.last < next + period

/-- The writer fails. Nobody else is stopped by that. -/
def fail (l : Link) : Link := { l with writer := .stopped, accepting := false, queue := [] }.letGo

/-- A ping from the client is answered by the transport, which never waits. -/
def answerPing (l : Link) : Link := if l.cut then l else l.put .pong

def readData (l : Link) (xs : List Symbol) : Link :=
  match Message.decode? xs with
  | none => l.stopReading
  | some m => { l with
      reader := .offering (l.stamp m)
      heard := l.heard || !m.kind.isKeepalive }

def read (l : Link) (now : Nat) : Inbound → Link
  | .data xs => l.readData xs
  | .ping => { l with reader := .reading (Time.due now now l.timing.read) }.answerPing
  | .pong => { l with reader := .reading (Time.due now now l.timing.read) }
  | .close => { l with peerClosed := true }.stopReading

def writeMessage (l : Link) (now : Nat) (m : Message) : Link :=
  { l with
    tracked := track l.tracked m
    wrote := l.wrote || !m.kind.isKeepalive }.write now (.message m)

/-- At the end of a period without traffic the connection is closed. -/
def idleTick (l : Link) (now : Nat) : Link :=
  let l := { l with nextIdle := Time.due now l.nextIdle l.timing.idle }
  if l.wrote ∨ l.heard then { l with wrote := false, heard := false } else l.beginClose now

/-- Does an act if it is possible now, and says what it tells the lobby. -/
def act (now : Nat) (intake : Intake) (l : Link) : Act → Option (Link × Option Event)
  | .readStop =>
    if l.cancelled ∧ l.reader ≠ .stopped then some ({ l with reader := .stopped }.letGo, none)
    else none
  | .readFrame => match l.reader, l.arriving with
    | .reading _, f :: rest => some ({ l with arriving := rest }.read now f, none)
    | _, _ => none
  | .readEnd => match l.reader, l.arriving with
    | .reading _, [] => if l.cut then some (l.stopReading, none) else none
    | _, _ => none
  | .readTimeout => match l.reader with
    | .reading d => if d ≤ now then some (l.stopReading, none) else none
    | _ => none
  | .offer => match l.reader, intake with
    | .offering m, .accepting =>
      some ({ l with reader := .reading (Time.due now now l.timing.read) }, some (.inbound m))
    | .offering _, .shut => some (l.stopReading, none)
    | _, _ => none
  | .writeStop => if l.writer = .ready ∧ l.cancelled then some (l.beginClose now, none) else none
  | .hangUp =>
    if l.writer = .ready ∧ l.hungUp ∧ l.queue = [] then some (l.beginClose now, none) else none
  | .writeNext => match l.writer, l.queue with
    | .ready, m :: rest => some ({ l with queue := rest }.writeMessage now m, none)
    | _, _ => none
  | .sendPing =>
    if l.writer = .ready ∧ l.nextPing ≤ now then
      some ({ l with nextPing := Time.due now l.nextPing l.timing.ping }.write now .ping, none)
    else none
  | .sendHint =>
    if l.writer = .ready ∧ l.nextHint ≤ now then
      some ({ l with nextHint := Time.due now l.nextHint l.timing.hint }.write now
        (.message (.ofKind .socketHttpPing)), none)
    else none
  | .checkIdle =>
    if l.writer = .ready ∧ l.nextIdle ≤ now then some (l.idleTick now, none) else none
  | .overrun => if l.writer = .ready ∧ l.overruns now then some (l.fail, none) else none
  | .flush =>
    if !l.cut ∧ l.pending ≠ [] ∧ (!l.client.muted ∨ 0 < l.client.room) then some (l.flush, none)
    else none
  | .writeTimeout => match l.writer with
    | .writing d => if d ≤ now ∨ l.cut then some (l.beginClose now, none) else none
    | _ => none
  | .closeTimeout => match l.writer with
    | .closing d =>
      if d ≤ now ∨ l.cut then some ({ l with writer := .stopped, pending := [] }.letGo, none)
      else none
    | _ => none
  | .report =>
    if l.reader = .stopped ∧ l.writer = .stopped ∧ !l.reported then match intake with
      | .accepting => some ({ l with reported := true }, some (.closed l.name l.socket))
      | .shut => some ({ l with reported := true }, none)
      | .full => none
    else none

def deadlines (l : Link) : List Nat :=
  (match l.reader with
    | .reading d => [d]
    | _ => []) ++
  match l.writer with
    | .ready => [l.nextPing, l.nextHint, l.nextIdle]
    | .writing d | .closing d => [d]
    | .stopped => []

def ended (l : Link) : Bool := l.reader = .stopped && l.writer = .stopped

/-- Sending fails once the client has seen the end. A client that has left can only leave again,
which does nothing; any other needs somebody to send to. -/
def gone (l : Link) (f : Inbound) : Bool :=
  l.client.finished || if l.client.left then f ≠ .close else l.ended

def send (l : Link) (f : Inbound) : Link :=
  if l.client.left then l
  else { l with
    arriving := l.arriving ++ [f]
    client := { l.client with left := f = .close } }

def drop (l : Link) : Link := { l with cut := true, client := { l.client with finished := true } }

def mute (l : Link) : Link := { l with client := { l.client with muted := true } }

def sip (l : Link) (n : Nat) : Link :=
  { l with
    client := l.client.sip n
    arriving := l.arriving ++ l.client.answers (l.client.transit.take n) }

/-- The client reads again, first of all what is on the way. -/
def unmute (l : Link) : Link :=
  let l := l.sip l.client.transit.length
  { l with client := { l.client with muted := false, room := l.client.limit } }

def look (l : Link) : List Frame × Link :=
  (l.client.unread, { l with client := { l.client with unread := [] } })

end Link

end TileRace
