import TileRace.Server

namespace TileRace

/-- Something that works by itself: what it does next at a given time, and when it next has to be
looked at because a timer runs out. -/
structure Machine (σ : Type) where
  next : Nat → σ → Option σ
  deadlines : σ → List Nat

namespace Machine

variable {σ : Type}

def settle (m : Machine σ) (now : Nat) : Nat → σ → σ
  | 0, s => s
  | n + 1, s => match m.next now s with
    | some s => m.settle now n s
    | none => s

def patience : Nat := 10000000

/-- The clock ticks once in a millisecond. -/
def tick : Nat := Time.millisecond

def tickOf (deadline : Nat) : Nat := (deadline + tick - 1) / tick * tick

/-- Lets time pass up to `goal`, doing everything as soon as it can be done. Time stands still
at each tick on the way at which a timer runs out; there are at most `n` of them. What runs out at
`goal` itself is left to what happens there. -/
def pass (m : Machine σ) (goal : Nat) : Nat → Nat → σ → σ
  | 0, _, s => s
  | n + 1, now, s =>
    let s := m.settle now patience s
    match (((m.deadlines s).map tickOf).filter fun d => now < d ∧ d < goal).min? with
    | some d => m.pass goal n d s
    | none => s

end Machine

def Registry.turns (r : Registry) : List (Nat × Session.Act) :=
  r.places.flatMap fun n => [.halt, .handle, .expire].map (n, ·)

def Registry.machine : Machine Registry where
  next now r := r.turns.findSome? fun (n, a) => r.act now n a
  deadlines r := r.sessions.values.filterMap Session.timer?

def Link.machine (intake : Intake) : Machine (Link × List Event) where
  next now s := Link.Act.all.findSome? fun a =>
    (s.1.act now intake a).map fun (l, e) => (l, s.2 ++ e.toList)
  deadlines s := s.1.deadlines

namespace Server

/-- The lobby finishes its duties first. Then it looks at its own end, at new connections, at what
connections tell, and at what games report, in this order. -/
def lobbyTurns (s : Server) : List Act :=
  [.duty, .stop, .enroll, .hear] ++ (s.lobby.games.reports.head?.map fun r => .route r.1).toList

def lineTurns (s : Server) : List Act :=
  (List.range s.lines.length).flatMap fun i => Link.Act.all.map (.line i)

def gameTurns (s : Server) : List Act := s.lobby.games.turns.map fun (n, a) => .game n a

def next (s : Server) : Option Server :=
  (s.lobbyTurns ++ s.lineTurns ++ s.gameTurns).findSome? s.act

def lineDeadlines : Line → List Nat
  | .opened l => l.deadlines
  | _ => []

def machine : Machine Server where
  next now s := next { s with now := now }
  deadlines s :=
    s.lines.flatMap lineDeadlines ++ s.lobby.games.sessions.values.filterMap Session.timer?

end Server

end TileRace
