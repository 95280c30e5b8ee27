import Mathlib.Data.List.Induction
import TileRace.Proofs.Game.Farewell
import TileRace.Proofs.Server.Registry

namespace TileRace

def entriesOf (n : Nat) (l : List (Nat × Message)) : List Message := (l.filter (·.1 = n)).map (·.2)

/-- The request to join a new game that goes with the request for it. -/
def Message.joining (m : Message) (id : GameId) : Message :=
  { m.reply .joinGame with gameId := some id, grid := m.grid }

def Session.takes (s : Session) : Act → List Message
  | .handle => s.inbox.take 1
  | _ => []

namespace Registry

/-- The answer to a message, as the games stand. -/
def verdict (r : Registry) (m : Message) : Except RegistryError Unit :=
  match m.gameId with
  | none => .error .missingGameId
  | some id => match r.rooms.get? id with
    | none => .error (.unknownGame id)
    | some n => if r.runs n then .ok () else .error (.gameClosed id)

def takes (r : Registry) (n : Nat) (a : Session.Act) : List Message :=
  ((r.sessions.get? n).map (·.takes a)).getD []

/-- No game has been opened yet. -/
structure Unopened (r : Registry) : Prop where
  rooms : r.rooms = .empty
  sessions : r.sessions = .empty
  started : r.started = 0
  reports : r.reports = []

end Registry

/-- The games, and the call that waits until there is space in the inbox of a session. Of the calls
so far it is known which request opened each session, and which messages were called for it,
delivered to it and handled by it. -/
structure Desk where
  games : Registry
  waiting : Option (Nat × Message) := none
  opened : List (Message × GameId) := []
  called : List (Nat × Message) := []
  delivered : List (Nat × Message) := []
  handled : List (Nat × Message) := []

namespace Desk

inductive Act where
  | create (now : Nat) (m : Message)
  | forward (m : Message)
  | remove (id : GameId)
  | deliver
  | cancel
  | play (now n : Nat) (a : Session.Act)

abbrev Answer := Except RegistryError Unit

/-- Does an act, if it is its time, and gives the answer to the call that it completes. A new game
is joined at once by the player who asked for it. -/
def act (d : Desk) : Act → Option (Desk × Option Answer)
  | .create now m =>
    if d.waiting.isSome ∨ d.games.exhausted then none
    else match d.games.create now m with
      | .error e => some (d, some (.error e))
      | .ok c => some ({ d with
          games := c.registry
          waiting := some (c.session, c.join)
          opened := d.opened ++ [(m, c.id)]
          called := d.called ++ [(c.session, c.join)] }, none)
  | .forward m =>
    if d.waiting.isSome then none
    else match d.games.find m with
      | .error e => some (d, some (.error e))
      | .ok n => some ({ d with waiting := some (n, m), called := d.called ++ [(n, m)] }, none)
  | .remove id =>
    if d.waiting.isSome then none else some ({ d with games := d.games.remove id }, none)
  | .deliver => match d.waiting with
    | none => none
    | some (n, m) => match d.games.deliver n m with
      | .accepted r => some ({ d with
          games := r, waiting := none, delivered := d.delivered ++ [(n, m)] }, some (.ok ()))
      | .full => none
      | .ended => some ({ d with waiting := none }, some (.error (.gameClosed (m.gameId.getD 0))))
  | .cancel => some ({ d with games := d.games.cancel }, none)
  | .play now n a => (d.games.act now n a).map fun r =>
      ({ d with games := r, handled := d.handled ++ (d.games.takes n a).map (n, ·) }, none)

def run (d : Desk) : List Act → Option Desk
  | [] => some d
  | a :: acts => (d.act a).bind fun x => x.1.run acts

variable {d d' : Desk} {a : Act} {acts : List Act} {answer : Option Answer} {n k : Nat}
  {m : Message}

theorem run_append (d : Desk) (acts acts' : List Act) :
    d.run (acts ++ acts') = (d.run acts).bind (·.run acts') := by
  induction acts generalizing d with
  | nil => rfl
  | cons a acts ih =>
    rw [List.cons_append, run, run, Option.bind_assoc]
    exact congrArg _ (funext fun x => ih x.1)

theorem run_concat : d.run (acts ++ [a]) = some d' ↔
    ∃ e answer, d.run acts = some e ∧ e.act a = some (d', answer) := by
  simp [run_append, run, Option.bind_eq_some_iff]

theorem run_induction {P : List Act → Desk → Prop} (hnil : P [] d)
    (hact : ∀ acts e a e' answer, d.run acts = some e → P acts e → e.act a = some (e', answer) →
      P (acts ++ [a]) e') (hrun : d.run acts = some d') : P acts d' := by
  induction acts using List.reverseRecOn generalizing d' with
  | nil => exact Option.some.inj hrun ▸ hnil
  | append_singleton acts a ih =>
    obtain ⟨e, answer, he, ha⟩ := run_concat.1 hrun
    exact hact acts e a d' answer he (ih he) ha

inductive Does (d : Desk) : Act → Desk → Option Answer → Prop where
  | spoilt {now : Nat} {m : Message} {e : RegistryError} (free : d.waiting = none)
    (create : d.games.create now m = .error e) : Does d (.create now m) d (some (.error e))
  | opened {now : Nat} {m : Message} {s : Session} (free : d.waiting = none)
    (id : d.games.nextId ≠ 0) (room : d.games.rooms.get? d.games.nextId = none)
    (named : s.game.id = d.games.nextId) (players : s.game.players = []) (quiet : s.inbox = [])
    (runs : s.failed = false) (setting : s.game.settings = d.games.settings)
    (cancelled : s.cancelled = d.games.cancelled) {places : List Nat} :
    Does d (.create now m) { d with
      games := { d.games with
        rooms := d.games.rooms.insert d.games.nextId d.games.started
        sessions := d.games.sessions.insert d.games.started s
        places := places
        started := d.games.started + 1 }
      waiting := some (d.games.started, m.joining d.games.nextId)
      opened := d.opened ++ [(m, d.games.nextId)]
      called := d.called ++ [(d.games.started, m.joining d.games.nextId)] } none
  | unfound {m : Message} {e : RegistryError} (free : d.waiting = none)
    (find : d.games.find m = .error e) : Does d (.forward m) d (some (.error e))
  | called {m : Message} {n : Nat} (free : d.waiting = none) (find : d.games.find m = .ok n) :
    Does d (.forward m) { d with waiting := some (n, m), called := d.called ++ [(n, m)] } none
  | removed {id : GameId} (free : d.waiting = none) :
    Does d (.remove id) { d with games := d.games.remove id } none
  | delivered {n : Nat} {m : Message} {s : Session} (next : d.waiting = some (n, m))
    (live : d.games.sessions.get? n = some s) (runs : s.failed = false)
    (space : s.inbox.length < d.games.capacity) :
    Does d .deliver { d with
      games := { d.games with
        sessions := d.games.sessions.modify n fun s => { s with inbox := s.inbox ++ [m] } }
      waiting := none
      delivered := d.delivered ++ [(n, m)] } (some (.ok ()))
  | closed {n : Nat} {m : Message} (next : d.waiting = some (n, m))
    (ended : d.games.runs n = false) :
    Does d .deliver { d with waiting := none } (some (.error (.gameClosed (m.gameId.getD 0))))
  | cancelled : Does d .cancel { d with games := d.games.cancel } none
  | played {now n : Nat} {a : Session.Act} {s : Session} {result : Session.Result} {r : Registry}
    (acts : s.act now a = some result) (plays : d.games.Plays n s result r)
    (capacity : r.capacity = d.games.capacity) (cancelled : r.cancelled = d.games.cancelled)
    (settings : r.settings = d.games.settings) :
    Does d (.play now n a)
      { d with games := r, handled := d.handled ++ (s.takes a).map (n, ·) } none

theorem does_create {now : Nat} (h0 : d.games.rooms.get? 0 = none)
    (h : d.act (.create now m) = some (d', answer)) : d.Does (.create now m) d' answer := by
  obtain ⟨hfree, h⟩ := Option.ite_none_left_eq_some.1 h
  obtain ⟨hfree, hleft⟩ := not_or.1 hfree
  rw [Option.not_isSome_iff_eq_none] at hfree
  cases hc : d.games.create now m with
  | error e =>
    rw [hc] at h
    cases h
    exact .spoilt hfree hc
  | ok c =>
    rw [hc] at h
    cases h
    obtain ⟨rules, grid, game, hfull, hgame, rfl⟩ := Registry.create_founds hc
    have hset := Game.setUp_eq_ok hgame
    obtain ⟨hid, hroom⟩ := Registry.nextId_free h0 hfull (Bool.not_eq_true _ ▸ hleft)
    exact .opened hfree hid hroom (congrArg Game.id hset) (congrArg Game.players hset) rfl rfl
      (congrArg Game.settings hset) rfl

theorem does_deliver (h : d.act .deliver = some (d', answer)) : d.Does .deliver d' answer := by
  rw [act] at h
  split at h
  · cases h
  rename_i n m hnext
  rw [Registry.deliver] at h
  cases hs : d.games.sessions.get? n with
  | none =>
    rw [hs] at h
    cases h
    exact .closed hnext (by rw [Registry.runs, hs, Option.any_none])
  | some s =>
    rw [hs] at h
    dsimp only at h
    by_cases hfailed : s.failed
    · rw [if_pos hfailed] at h
      cases h
      exact .closed hnext (by rw [Registry.runs, hs, Option.any_some, hfailed, Bool.not_true])
    rw [if_neg hfailed] at h
    by_cases hspace : s.inbox.length < d.games.capacity
    · rw [if_pos hspace] at h
      cases h
      exact .delivered hnext hs (Bool.eq_false_iff.2 hfailed) hspace
    · rw [if_neg hspace] at h
      cases h

theorem does_act (h0 : d.games.rooms.get? 0 = none) (h : d.act a = some (d', answer)) :
    d.Does a d' answer := by
  cases a with
  | create now m => exact does_create h0 h
  | forward m =>
    obtain ⟨hfree, h⟩ := Option.ite_none_left_eq_some.1 h
    rw [Option.not_isSome_iff_eq_none] at hfree
    cases hf : d.games.find m with
    | error e =>
      rw [hf] at h
      cases h
      exact .unfound hfree hf
    | ok n =>
      rw [hf] at h
      cases h
      exact .called hfree hf
  | remove id =>
    obtain ⟨hfree, h⟩ := Option.ite_none_left_eq_some.1 h
    cases h
    exact .removed (Option.not_isSome_iff_eq_none.1 hfree)
  | deliver => exact does_deliver h
  | cancel =>
    cases h
    exact .cancelled
  | play now n a =>
    obtain ⟨r, hr, he⟩ := Option.map_eq_some_iff.1 h
    cases he
    obtain ⟨s, result, hacts, hplays⟩ := Registry.act_eq_some hr
    have htakes : d.games.takes n a = s.takes a := by
      cases a <;> simp [Registry.takes, Session.takes, hplays.session]
    rw [htakes]
    obtain ⟨hcapacity, hcancelled, hsettings⟩ := Registry.fixed_act hr
    exact .played hacts hplays hcapacity hcancelled hsettings

end Desk

/-- All that concerns one session: what waits for its inbox, which messages were called for it,
delivered to it and handled by it, and what it has said. -/
structure Thread where
  session : Option Session := none
  waiting : List Message := []
  called : List Message := []
  delivered : List Message := []
  handled : List Message := []
  said : List Message := []

/-- All that can happen to a session. -/
inductive Thread.Next (capacity : Nat) (t : Thread) : Thread → Prop where
  | stay : Next capacity t t
  | opened {s : Session} {m : Message} (blank : t = {}) (players : s.game.players = [])
    (quiet : s.inbox = []) (runs : s.failed = false) :
    Next capacity t { session := some s, waiting := [m], called := [m] }
  | called {m : Message} (free : t.waiting = []) :
    Next capacity t { t with waiting := [m], called := t.called ++ [m] }
  | delivered {s : Session} {m : Message} (live : t.session = some s) (runs : s.failed = false)
    (next : t.waiting = [m]) (space : s.inbox.length < capacity) :
    Next capacity t { t with
      session := some { s with inbox := s.inbox ++ [m] }
      waiting := []
      delivered := t.delivered ++ [m] }
  | closed (ended : t.session.any (!·.failed) = false) : Next capacity t { t with waiting := [] }
  | stopped {s : Session} (live : t.session = some s) :
    Next capacity t { t with session := some { s with cancelled := true } }
  | played {s : Session} {now : Nat} {a : Session.Act} {result : Session.Result}
    (live : t.session = some s) (act : s.act now a = some result) :
    Next capacity t { t with
      session := result.session
      handled := t.handled ++ s.takes a
      said := t.said ++ result.out }

variable {capacity : Nat} {t t' : Thread}

theorem Thread.Next.same (h : t' = t) : t.Next capacity t' := h ▸ .stay

theorem Thread.next_stop (t : Thread) (capacity : Nat) : t.Next capacity
    { t with session := t.session.map fun s => { s with cancelled := true } } := by
  cases hs : t.session with
  | none =>
    rw [Option.map_none, ← hs]
    exact .stay
  | some s => exact .stopped hs

variable {n k : Nat} {m : Message} {l : List (Nat × Message)}

theorem entriesOf_append (n : Nat) (l l' : List (Nat × Message)) :
    entriesOf n (l ++ l') = entriesOf n l ++ entriesOf n l' := by
  simp [entriesOf]

theorem entriesOf_map (k n : Nat) (ms : List Message) :
    entriesOf k (ms.map (n, ·)) = if n = k then ms else [] := by
  by_cases h : n = k <;> simp [entriesOf, List.filter_map, Function.comp_def, h]

@[simp] theorem entriesOf_nil (k : Nat) : entriesOf k [] = [] := rfl

@[simp] theorem entriesOf_singleton (k n : Nat) (m : Message) :
    entriesOf k [(n, m)] = if n = k then [m] else [] :=
  entriesOf_map k n [m]

@[simp] theorem entriesOf_concat (k n : Nat) (l : List (Nat × Message)) (m : Message) :
    entriesOf k (l ++ [(n, m)]) = entriesOf k l ++ if n = k then [m] else [] := by
  rw [entriesOf_append, entriesOf_singleton]

theorem mem_entriesOf : m ∈ entriesOf n l ↔ (n, m) ∈ l := by
  simp [entriesOf]

namespace Desk

variable {d d' : Desk} {a : Act} {answer : Option Answer}

def thread (d : Desk) (n : Nat) : Thread where
  session := d.games.sessions.get? n
  waiting := entriesOf n d.waiting.toList
  called := entriesOf n d.called
  delivered := entriesOf n d.delivered
  handled := entriesOf n d.handled
  said := d.games.underway n

theorem next_remove (d : Desk) (id : GameId) (k : Nat) : (d.thread k).Next d.games.capacity
    ({ d with games := d.games.remove id }.thread k) := by
  rw [Registry.remove]
  split
  · exact .stay
  · rename_i n hroom
    by_cases hk : k = n
    · have hstop := (d.thread k).next_stop d.games.capacity
      simpa [thread, Table.get?_modify, hk, Registry.underway] using hstop
    · exact .same (by simp [thread, Table.get?_modify, hk, Registry.underway])

/-- An act does one thing to each session. -/
theorem Does.next (h : d.Does a d' answer) (hblank : ∀ n, d.games.started ≤ n → d.thread n = {})
    (k : Nat) : (d.thread k).Next d.games.capacity (d'.thread k) := by
  cases h with
  | spoilt | unfound => exact .stay
  | @opened now m s free id room named players quiet runs setting cancelled places =>
    by_cases hk : d.games.started = k
    · have hb := hblank k (Nat.le_of_eq hk)
      have hopened : (d.thread k).Next d.games.capacity {
          session := some s
          waiting := [m.joining d.games.nextId]
          called := [m.joining d.games.nextId] } := .opened hb players quiet runs
      simp only [thread, Registry.underway, Thread.mk.injEq] at hb
      obtain ⟨-, -, hcalled, hdelivered, hhandled, hsaid⟩ := hb
      simpa [thread, Table.get?_insert, Registry.underway, hk, hcalled, hdelivered, hhandled, hsaid]
        using hopened
    · exact .same (by simp [thread, Table.get?_insert, Registry.underway, hk, Ne.symm hk, free])
  | @called m n free find =>
    by_cases hk : n = k
    · have hwaiting : (d.thread k).waiting = [] := by simp [thread, free]
      have hcalled : (d.thread k).Next d.games.capacity { d.thread k with
          waiting := [m], called := (d.thread k).called ++ [m] } := .called hwaiting
      simpa [thread, hk] using hcalled
    · exact .same (by simp [thread, hk, free])
  | removed free => exact next_remove ..
  | @delivered n m s next live runs space =>
    by_cases hk : n = k
    · subst hk
      have hwaiting : (d.thread n).waiting = [m] := by simp [thread, next]
      have hdelivered := Thread.Next.delivered live runs hwaiting space
      simpa [thread, Table.get?_modify, Registry.underway, live] using hdelivered
    · exact .same (by
        simp [thread, Table.get?_modify, Registry.underway, hk, Ne.symm hk, next])
  | @closed n m next ended =>
    by_cases hk : n = k
    · subst hk
      exact .closed ended
    · exact .same (by simp [thread, hk, next])
  | cancelled =>
    have hstop := (d.thread k).next_stop d.games.capacity
    simpa [thread, Registry.cancel, Table.get?_map, Registry.underway] using hstop
  | @played now n a s result r acts plays =>
    by_cases hk : n = k
    · subst hk
      have hplayed : (d.thread n).Next d.games.capacity { d.thread n with
          session := result.session
          handled := (d.thread n).handled ++ s.takes a
          said := (d.thread n).said ++ result.out } := .played plays.session acts
      simpa [thread, plays.sessions, plays.underway, entriesOf_append, entriesOf_map] using hplayed
    · exact .same (by simp [thread, plays.sessions, plays.underway, entriesOf_append, entriesOf_map,
        hk, Ne.symm hk])

end Desk

end TileRace
