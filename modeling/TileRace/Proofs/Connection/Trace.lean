import TileRace.Proofs.Connection.Writing
import TileRace.Proofs.Connection.Link

namespace TileRace

namespace Link

/-- Anything that can happen to a connection: an act of its own, or something from outside. -/
inductive Move where
  | act (a : Act)
  | send (f : Inbound)
  | queue (m : Message)
  | hangUp
  | cancel
  | drop
  | mute
  | unmute
  | sip (frames : Nat)
  | look
  | wait (time : Nat)
  deriving DecidableEq

def writes? (l : Link) (a : Act) : Option Message :=
  if l.cut ∨ l.peerClosed then none else match a with
    | .writeNext => l.queue.head?
    | .sendHint => some (.ofKind .socketHttpPing)
    | _ => none

def busy (l : Link) : Act → Bool
  | .readFrame => l.reading?.any (!·.kind.isKeepalive)
  | .writeNext => l.queue.head?.any (!·.kind.isKeepalive)
  | _ => false

end Link

/-- A connection and all that was said on it so far: what its client sent and what it has looked at,
what was queued for the client, what was written by which act, and what the lobby was told and when.
`traffic` are the times at which a message was read or taken from the queue that was not only there
to keep the connection open. -/
structure Trace where
  link : Link
  now : Nat
  sent : List Inbound := []
  queued : List Message := []
  written : List (Link.Act × Message) := []
  seen : List Frame := []
  events : List (Nat × Event) := []
  traffic : List Nat := []
  deriving DecidableEq

namespace Trace

def start (socket : SocketId) (name : String) (t : Timing) (room now : Nat) : Trace :=
  { link := .start socket name t room now, now }

/-- Makes a move if it is possible. The lobby takes what it is told; if it takes it later, then the
connection tells it later. -/
def step (r : Trace) : Link.Move → Option Trace
  | .act a => (r.link.act r.now .accepting a).map fun (l, e) => { r with
      link := l
      written := r.written ++ ((r.link.writes? a).map (a, ·)).toList
      events := r.events ++ (e.map (r.now, ·)).toList
      traffic := r.traffic ++ if r.link.busy a then [r.now] else [] }
  | .send f =>
    if r.link.gone f then none
    else some { r with
      link := r.link.send f
      sent := r.sent ++ if r.link.client.left then [] else [f] }
  | .queue m =>
    if r.link.accepting ∧ !r.link.hungUp then
      some { r with
        link := { r.link with queue := r.link.queue ++ [m] }
        queued := r.queued ++ [m] }
    else none
  | .hangUp => some { r with link := { r.link with hungUp := true } }
  | .cancel => some { r with link := { r.link with cancelled := true } }
  | .drop => some { r with link := r.link.drop }
  | .mute => some { r with link := r.link.mute }
  | .unmute => some { r with link := r.link.unmute }
  | .sip n => some { r with link := r.link.sip n }
  | .look => some { r with link := r.link.look.2, seen := r.seen ++ r.link.look.1 }
  | .wait time => some { r with now := r.now + time }

def run (r : Trace) : List Link.Move → Option Trace
  | [] => some r
  | mv :: mvs => (r.step mv).bind (·.run mvs)

/-- The messages that the connection wrote, without its own hints. -/
def texts (r : Trace) : List Message := (r.written.filter (·.1 ≠ .sendHint)).map (·.2)

/-- All messages that the client has received. -/
def received (r : Trace) : List Message :=
  (r.seen ++ r.link.client.unread).filterMap Frame.message?

/-- What a move from outside does to a trace. Frames may come from the client, or pongs for what it
has received, and messages may be queued; the connection itself does nothing. -/
structure Outside (r r' : Trace) : Prop where
  identity : r.link.SameIdentity r'.link
  reader : r'.link.reader = r.link.reader
  writer : r'.link.writer = r.link.writer
  reported : r'.link.reported = r.link.reported
  tracked : r'.link.tracked = r.link.tracked
  accepting : r'.link.accepting = r.link.accepting
  queues : ∃ ms, r'.queued = r.queued ++ ms ∧ r'.link.queue = r.link.queue ++ ms
  arrives : ∃ fs pongs, r'.sent = r.sent ++ fs ∧ (∀ g ∈ pongs, g = .pong) ∧
    r'.link.arriving = r.link.arriving ++ fs ++ pongs
  written : r'.written = r.written
  events : r'.events = r.events
  traffic : r'.traffic = r.traffic
  now : r.now ≤ r'.now

/-- All that can happen to a connection: an act of its own, or something from outside. -/
inductive Makes (r : Trace) : Link.Move → Trace → Prop where
  | acts {a l e} (act : r.link.act r.now .accepting a = some (l, e)) : Makes r (.act a) { r with
      link := l
      written := r.written ++ ((r.link.writes? a).map (a, ·)).toList
      events := r.events ++ (e.map (r.now, ·)).toList
      traffic := r.traffic ++ if r.link.busy a then [r.now] else [] }
  | outside {mv r'} (ne : ∀ a, mv ≠ .act a) (outside : r.Outside r') : Makes r mv r'

variable {r r' : Trace} {mv : Link.Move} {mvs : List Link.Move}

theorem run_cons : r.run (mv :: mvs) = some r' ↔ ∃ q, r.step mv = some q ∧ q.run mvs = some r' :=
  Option.bind_eq_some_iff

theorem run_induction {P : Trace → Prop} (step : ∀ {r r' mv}, P r → r.step mv = some r' → P r')
    (h : P r) (hrun : r.run mvs = some r') : P r' := by
  induction mvs generalizing r with
  | nil => exact Option.some.inj hrun ▸ h
  | cons mv mvs ih =>
    obtain ⟨q, hq, hrun⟩ := run_cons.1 hrun
    exact ih (step h hq) hrun

theorem step_act {a : Link.Act} (h : r.step (.act a) = some r') : ∃ l e,
    r.link.act r.now .accepting a = some (l, e) ∧ r' = { r with
      link := l
      written := r.written ++ ((r.link.writes? a).map (a, ·)).toList
      events := r.events ++ (e.map (r.now, ·)).toList
      traffic := r.traffic ++ if r.link.busy a then [r.now] else [] } := by
  obtain ⟨⟨l, e⟩, hact, rfl⟩ := Option.map_eq_some_iff.1 h
  exact ⟨l, e, hact, rfl⟩

theorem makes_step (h : r.step mv = some r') : r.Makes mv r' := by
  have hqueues : ∃ ms, r.queued = r.queued ++ ms ∧ r.link.queue = r.link.queue ++ ms :=
    ⟨[], by simp⟩
  have hquiet : ∃ fs pongs, r.sent = r.sent ++ fs ∧ (∀ g ∈ pongs, g = .pong) ∧
      r.link.arriving = r.link.arriving ++ fs ++ pongs := ⟨[], [], by simp⟩
  have hanswers (fs : List Frame) : ∃ (gs pongs : List Inbound), r.sent = r.sent ++ gs ∧
      (∀ g ∈ pongs, g = .pong) ∧
      r.link.arriving ++ r.link.client.answers fs = r.link.arriving ++ gs ++ pongs :=
    ⟨[], r.link.client.answers fs, by simp, fun _ => Client.eq_pong_of_mem_answers, by simp⟩
  cases mv with
  | act a =>
    obtain ⟨l, e, hact, rfl⟩ := step_act h
    exact .acts hact
  | send f =>
    obtain ⟨-, h⟩ := Option.ite_none_left_eq_some.1 h
    cases h
    rw [Link.send]
    split
    · simp only [List.append_nil]
      exact .outside (by simp) ⟨⟨rfl, rfl, rfl⟩, rfl, rfl, rfl, rfl, rfl, hqueues, hquiet, rfl, rfl,
        rfl, Nat.le_refl _⟩
    · exact .outside (by simp) ⟨⟨rfl, rfl, rfl⟩, rfl, rfl, rfl, rfl, rfl, hqueues,
        ⟨[f], [], rfl, by simp, by simp⟩, rfl, rfl, rfl, Nat.le_refl _⟩
  | queue m =>
    obtain ⟨-, h⟩ := Option.ite_none_right_eq_some.1 h
    cases h
    exact .outside (by simp) ⟨⟨rfl, rfl, rfl⟩, rfl, rfl, rfl, rfl, rfl, ⟨[m], rfl, rfl⟩, hquiet,
      rfl, rfl, rfl, Nat.le_refl _⟩
  | sip | unmute =>
    cases h
    exact .outside (by simp) ⟨⟨rfl, rfl, rfl⟩, rfl, rfl, rfl, rfl, rfl, hqueues, hanswers _, rfl,
      rfl, rfl, Nat.le_refl _⟩
  | wait =>
    cases h
    exact .outside (by simp) ⟨⟨rfl, rfl, rfl⟩, rfl, rfl, rfl, rfl, rfl, hqueues, hquiet, rfl, rfl,
      rfl, Nat.le_add_right _ _⟩
  | hangUp | cancel | drop | mute | look =>
    cases h
    exact .outside (by simp) ⟨⟨rfl, rfl, rfl⟩, rfl, rfl, rfl, rfl, rfl, hqueues, hquiet, rfl, rfl,
      rfl, Nat.le_refl _⟩

theorem outside_step (h : r.step mv = some r') (ne : ∀ a, mv ≠ .act a) : r.Outside r' := by
  cases makes_step h with
  | acts => exact (ne _ rfl).elim
  | outside ne ho => exact ho

end Trace

end TileRace
