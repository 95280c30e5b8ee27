import TileRace.Connection.Link
import TileRace.Lobby

namespace TileRace

/-- A connection as the network sees it: waiting for the lobby, refused, or open. -/
inductive Line where
  | waiting (name : String) (client : Client)
  | refused (reason : LobbyError) (client : Client)
  | opened (link : Link)

/-- A lobby at work, with its connections and everything that is on the way between them. The
lobby takes up nothing new before its duties are done. -/
structure Server where
  lobby : Lobby
  timing : Timing := {}
  capacity : Nat := 1
  room : Nat := 1048576
  now : Nat := 0
  lines : List Line := []
  requests : List Nat := []
  events : List Event := []
  duties : List Duty := []
  cancelled : Bool := false
  closed : Bool := false

namespace Server

inductive Act where
  | stop
  | enroll
  | hear
  | route (session : Nat)
  | duty
  | line (i : Nat) (a : Link.Act)
  | game (session : Nat) (a : Session.Act)
  deriving DecidableEq, Repr

def setLine (s : Server) (i : Nat) (l : Line) : Server := { s with lines := s.lines.set i l }

/-- What a client sees that is turned away. -/
def turnAway (c : Client) (frames : List Frame) : Client := frames.foldl Client.receive c

def refuseClosed : Line → Line
  | .waiting _ c => .refused .closed (turnAway c [.closed])
  | l => l

def idle (s : Server) : Bool := s.duties.isEmpty && !s.closed

def enrollNext (s : Server) (i : Nat) : Server :=
  match s.lines[i]? with
  | some (.waiting name client) => match s.lobby.enroll name with
    | .ok (id, lobby, duties) =>
      let link := { Link.start id name s.timing s.room s.now with client := client }
      { s with lobby, duties }.setLine i (.opened link)
    | .error e => s.setLine i
        (.refused e (turnAway client [.message (Message.error e.message), .closed]))
  | _ => s

def isFor (socket : SocketId) : Line → Bool
  | .opened l => l.socket = socket
  | _ => false

/-- Queues a message for a connection. It is lost if the connection is closing; there may be no
space for it. -/
def tell (s : Server) (socket : SocketId) (m : Message) : Option Server :=
  match s.lines.findIdx? (isFor socket) with
  | none => some s
  | some i => match s.lines[i]? with
    | some (.opened l) =>
      if !l.accepting then some s
      else if l.queue.length < s.capacity then
        some (s.setLine i (.opened { l with queue := l.queue ++ [m] }))
      else none
    | _ => some s

def perform (s : Server) : Duty → Option Server
  | .tell socket m => s.tell socket m
  | .pass n m socket answer => match s.lobby.games.deliver n m with
    | .accepted games => some { s with lobby := { s.lobby with games } }
    | .full => none
    | .ended => s.tell socket answer

def intake (s : Server) : Intake :=
  if s.closed then .shut else if s.events.length < s.capacity then .accepting else .full

def act (s : Server) : Act → Option Server
  | .stop =>
    if s.idle ∧ s.cancelled then
      some { s with
        closed := true
        lines := s.lines.map refuseClosed
        requests := []
        events := [] }
    else none
  | .enroll => match s.requests with
    | i :: rest =>
      if s.idle ∧ !s.cancelled then some ({ s with requests := rest }.enrollNext i) else none
    | [] => none
  | .hear => match s.events with
    | e :: rest =>
      if s.idle ∧ !s.cancelled then
        some (match e with
          | .inbound m =>
            let (lobby, duties) := s.lobby.receive s.now m
            { s with events := rest, lobby, duties }
          | .closed _ socket => { s with events := rest, lobby := s.lobby.forget socket })
      else none
    | [] => none
  | .route n =>
    if s.idle ∧ !s.cancelled then
      (s.lobby.games.takeReport n).map fun (m, games) =>
        let (lobby, duties) := { s.lobby with games }.report m
        { s with lobby, duties }
    else none
  | .duty => match s.duties with
    | d :: rest => (s.perform d).map fun s => { s with duties := rest }
    | [] => none
  | .line i a => match s.lines[i]? with
    | some (.opened l) => (l.act s.now s.intake a).map fun (l, e) =>
        { s.setLine i (.opened l) with events := s.events ++ e.toList }
    | _ => none
  | .game n a => (s.lobby.games.act s.now n a).map fun games =>
      { s with lobby := { s.lobby with games } }

def connect (s : Server) (name : String) : Server :=
  let client : Client := { room := s.room }
  if !Lobby.isNamed name then
    { s with lines := s.lines ++ [.refused .missingPlayerName (turnAway client [.closed])] }
  else if s.closed then
    { s with lines := s.lines ++ [.refused .closed (turnAway client [.closed])] }
  else
    { s with
      lines := s.lines ++ [.waiting name client]
      requests := s.requests ++ [s.lines.length] }

/-- Something happens at the client's end of an open connection. -/
def change (s : Server) (i : Nat) (f : Link → Link) : Server :=
  match s.lines[i]? with
  | some (.opened l) => s.setLine i (.opened (f l))
  | _ => s

def cancelLine : Line → Line
  | .opened l => .opened { l with cancelled := true }
  | l => l

def cancel (s : Server) : Server :=
  { s with
    cancelled := true
    lines := s.lines.map cancelLine
    lobby := { s.lobby with games := s.lobby.games.cancel } }

def gone (s : Server) (i : Nat) (f : Inbound) : Bool :=
  match s.lines[i]? with
  | some (.opened l) => l.gone f
  | _ => true

def lookLine : Line → List Frame × Line
  | .waiting name c => (c.unread, .waiting name { c with unread := [] })
  | .refused e c => (c.unread, .refused e { c with unread := [] })
  | .opened l => (l.look.1, .opened l.look.2)

def look (s : Server) : List (List Frame) × Server :=
  (s.lines.map (lookLine · |>.1), { s with lines := s.lines.map (lookLine · |>.2) })

end Server

end TileRace
