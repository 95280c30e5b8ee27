import TileRace.Proofs.Server.Registry
import TileRace.Server

namespace TileRace

/-- What the lobby does, as far as others notice: it takes up a request or a message of a session,
or it sends a message to a connection. -/
inductive Deed where
  | hear (m : Message)
  | route (session : Nat) (m : Message)
  | tell (socket : SocketId) (m : Message)
  deriving DecidableEq

def Duty.socket : Duty → SocketId
  | .tell socket _ | .pass _ _ socket _ => socket

def Duty.message : Duty → Message
  | .tell _ m | .pass _ _ _ m => m

/-- All that can happen to the lobby, by its own doing or by that of a session. It takes up
something only when its duties are done. -/
inductive Lobby.Step (l : Lobby) : List Duty → Option Deed → Lobby → List Duty → Prop where
  | rest (ds) : Step l ds none l ds
  | enroll {name id l' ds ds'} (free : ds = []) (h : l.enroll name = .ok (id, l', ds')) :
    Step l ds none l' ds'
  | hear {m ds} (now : Nat) (free : ds = [])
    (h : m.kind = .createGame → l.games.exhausted = false) :
    Step l ds (some (.hear m)) (l.receive now m).1 (l.receive now m).2
  | forget {ds} (socket) (free : ds = []) : Step l ds none (l.forget socket) ds
  | route {n m games ds} (free : ds = []) (h : l.games.takeReport n = some (m, games)) :
    Step l ds (some (.route n m)) ({ l with games }.report m).1 ({ l with games }.report m).2
  | tell (socket m ds) : Step l (.tell socket m :: ds) (some (.tell socket m)) l ds
  | pass {n m games} (socket answer ds) (h : l.games.deliver n m = .accepted games) :
    Step l (.pass n m socket answer :: ds) none { l with games } ds
  | answer {n m} (socket answer ds) (h : l.games.deliver n m = .ended) :
    Step l (.pass n m socket answer :: ds) (some (.tell socket answer)) l ds
  | play {now n a games} (ds) (h : l.games.act now n a = some games) :
    Step l ds none { l with games } ds
  | cancel (ds) : Step l ds none { l with games := l.games.cancel } ds

namespace Server

inductive Move where
  | act (a : Act)
  | connect (name : String)
  | send (i : Nat) (f : Inbound)
  | drop (i : Nat)
  | mute (i : Nat)
  | sip (i n : Nat)
  | unmute (i : Nat)
  | look
  | cancel
  | wait (time : Nat)
  deriving DecidableEq, Repr

/-- The lobby would look for a free id where there is none, and never come to an end. -/
def searches (s : Server) : Act → Bool
  | .hear => match s.events with
    | .inbound m :: _ => m.kind = .createGame && s.lobby.games.exhausted
    | _ => false
  | _ => false

def move (s : Server) : Move → Option Server
  | .act a => if s.searches a then none else s.act a
  | .connect name => some (s.connect name)
  | .send i f => if s.gone i f then none else some (s.change i (·.send f))
  | .drop i => some (s.change i Link.drop)
  | .mute i => some (s.change i Link.mute)
  | .sip i n => some (s.change i (·.sip n))
  | .unmute i => some (s.change i Link.unmute)
  | .look => some s.look.2
  | .cancel => some s.cancel
  | .wait time => some { s with now := s.now + time }

/-- What a move is for the lobby. -/
def deed? (s : Server) : Move → Option Deed
  | .act .hear => match s.events with
    | .inbound m :: _ => some (.hear m)
    | _ => none
  | .act (.route n) => (s.lobby.games.reports.lookup n).map (.route n)
  | .act .duty => match s.duties with
    | .tell socket m :: _ => some (.tell socket m)
    | .pass n m socket answer :: _ => match s.lobby.games.deliver n m with
      | .ended => some (.tell socket answer)
      | _ => none
    | [] => none
  | _ => none

def run (s : Server) : List Move → Option Server
  | [] => some s
  | mv :: mvs => (s.move mv).bind (·.run mvs)

/-- What the lobby does in a run, up to the first move that is not possible. -/
def deeds (s : Server) : List Move → List Deed
  | [] => []
  | mv :: mvs => match s.move mv with
    | some s' => (s.deed? mv).toList ++ s'.deeds mvs
    | none => []

/-- A server that nobody has come to yet. -/
structure Fresh (s : Server) : Prop where
  lines : s.lines = []
  requests : s.requests = []
  events : s.events = []
  duties : s.duties = []
  guests : s.lobby.guests = .empty
  infos : s.lobby.infos = .empty
  rooms : s.lobby.games.rooms = .empty
  sessions : s.lobby.games.sessions = .empty
  started : s.lobby.games.started = 0
  reports : s.lobby.games.reports = []

variable {s s' : Server} {mv : Move} {mvs : List Move}

theorem run_cons : s.run (mv :: mvs) = some s' ↔ ∃ t, s.move mv = some t ∧ t.run mvs = some s' :=
  Option.bind_eq_some_iff

theorem run_single (h : s.move mv = some s') : s.run [mv] = some s' := run_cons.2 ⟨s', h, rfl⟩

theorem deeds_cons {t : Server} (h : s.move mv = some t) :
    s.deeds (mv :: mvs) = (s.deed? mv).toList ++ t.deeds mvs := by
  rw [deeds, h]

theorem run_append (s : Server) (mvs mvs' : List Move) :
    s.run (mvs ++ mvs') = (s.run mvs).bind (·.run mvs') := by
  induction mvs generalizing s with
  | nil => rfl
  | cons mv mvs ih =>
    rw [List.cons_append, run, run, Option.bind_assoc]
    exact congrArg _ (funext ih)

theorem deeds_append (h : s.run mvs = some s') (mvs' : List Move) :
    s.deeds (mvs ++ mvs') = s.deeds mvs ++ s'.deeds mvs' := by
  induction mvs generalizing s with
  | nil =>
    obtain rfl := Option.some.inj h
    rfl
  | cons mv mvs ih =>
    obtain ⟨t, ht, hrun⟩ := run_cons.1 h
    rw [List.cons_append, deeds_cons ht, deeds_cons ht, ih hrun, List.append_assoc]

theorem run_induction {P : Server → Prop}
    (step : ∀ {s s' mv}, P s → s.move mv = some s' → P s') (h : P s)
    (hrun : s.run mvs = some s') : P s' := by
  induction mvs generalizing s with
  | nil => exact Option.some.inj hrun ▸ h
  | cons mv mvs ih =>
    obtain ⟨t, ht, hrun⟩ := run_cons.1 hrun
    exact ih (step h ht) hrun

/-- The connection that a client does something to, and what. -/
def Move.touch? : Move → Option (Nat × (Link → Link))
  | .send i f => some (i, (·.send f))
  | .drop i => some (i, Link.drop)
  | .mute i => some (i, Link.mute)
  | .sip i n => some (i, (·.sip n))
  | .unmute i => some (i, Link.unmute)
  | _ => none

/-- All that a move can do. -/
inductive Does (s : Server) : Move → Server → Prop where
  | stops (free : s.duties = []) (live : s.closed = false) (cancelled : s.cancelled) :
    Does s (.act .stop) { s with
      closed := true, lines := s.lines.map refuseClosed, requests := [], events := [] }
  | admits {i rest name client id lobby ds} (free : s.duties = []) (next : s.requests = i :: rest)
    (waits : s.lines[i]? = some (.waiting name client))
    (limits : s.lobby.enroll name = .ok (id, lobby, ds)) :
    Does s (.act .enroll) { s with
      requests := rest, lobby, duties := ds
      lines := s.lines.set i
        (.opened { Link.start id name s.timing s.room s.now with client := client }) }
  | refuses {i rest name client e} (free : s.duties = []) (next : s.requests = i :: rest)
    (waits : s.lines[i]? = some (.waiting name client)) (limits : s.lobby.enroll name = .error e) :
    Does s (.act .enroll) { s with
      requests := rest
      lines := s.lines.set i
        (.refused e (turnAway client [.message (Message.error e.message), .closed])) }
  | skips {i rest} (free : s.duties = []) (next : s.requests = i :: rest)
    (away : ∀ name client, s.lines[i]? ≠ some (.waiting name client)) :
    Does s (.act .enroll) { s with requests := rest }
  | hears {m rest} (free : s.duties = []) (event : s.events = .inbound m :: rest)
    (ids : m.kind = .createGame → s.lobby.games.exhausted = false) :
    Does s (.act .hear) { s with
      events := rest
      lobby := (s.lobby.receive s.now m).1
      duties := (s.lobby.receive s.now m).2 }
  | forgets {name socket rest} (free : s.duties = [])
    (event : s.events = .closed name socket :: rest) :
    Does s (.act .hear) { s with events := rest, lobby := s.lobby.forget socket }
  | routes {n m games} (free : s.duties = [])
    (takes : s.lobby.games.takeReport n = some (m, games)) :
    Does s (.act (.route n)) { s with
      lobby := ({ s.lobby with games }.report m).1
      duties := ({ s.lobby with games }.report m).2 }
  | passes {n m socket answer ds games} (due : s.duties = .pass n m socket answer :: ds)
    (delivered : s.lobby.games.deliver n m = .accepted games) :
    Does s (.act .duty) { s with lobby := { s.lobby with games }, duties := ds }
  | loses {d ds} (due : s.duties = d :: ds)
    (sent : s.deed? (.act .duty) = some (.tell d.socket d.message))
    (closing : ∀ i l, s.lines.findIdx? (isFor d.socket) = some i →
      s.lines[i]? = some (.opened l) → l.accepting = false) :
    Does s (.act .duty) { s with duties := ds }
  | queues {d ds i l} (due : s.duties = d :: ds)
    (sent : s.deed? (.act .duty) = some (.tell d.socket d.message))
    (found : s.lines.findIdx? (isFor d.socket) = some i) (link : s.lines[i]? = some (.opened l))
    (accepting : l.accepting) (space : l.queue.length < s.capacity) :
    Does s (.act .duty) { s with
      lines := s.lines.set i (.opened { l with queue := l.queue ++ [d.message] }), duties := ds }
  | acts {i a l l' e} (link : s.lines[i]? = some (.opened l))
    (act : l.act s.now s.intake a = some (l', e)) :
    Does s (.act (.line i a)) { s with
      lines := s.lines.set i (.opened l'), events := s.events ++ e.toList }
  | plays {n a games} (act : s.lobby.games.act s.now n a = some games) :
    Does s (.act (.game n a)) { s with lobby := { s.lobby with games } }
  | asks {name} (named : Lobby.isNamed name) (live : s.closed = false) :
    Does s (.connect name) { s with
      lines := s.lines ++ [.waiting name { room := s.room }]
      requests := s.requests ++ [s.lines.length] }
  | turns {name e}
    (why : e = .missingPlayerName ∧ Lobby.isNamed name = false ∨ e = .closed ∧ s.closed) :
    Does s (.connect name) { s with
      lines := s.lines ++ [.refused e (turnAway { room := s.room } [.closed])] }
  | touches {mv i f} (touch : mv.touch? = some (i, f))
    (there : ∀ x, mv = .send i x → s.gone i x = false) : Does s mv (s.change i f)
  | looks : Does s .look s.look.2
  | cancels : Does s .cancel s.cancel
  | waits {time} : Does s (.wait time) { s with now := s.now + time }

theorem duties_of_idle (h : s.idle) : s.duties = [] := by
  rw [idle, Bool.and_eq_true] at h
  exact List.isEmpty_iff.1 h.1

theorem act_of_move {a : Act} (h : s.move (.act a) = some s') : s.act a = some s' :=
  (Option.ite_none_left_eq_some.1 h).2

theorem socket_of_isFor {socket : SocketId} {i : Nat} {l : Link}
    (h : s.lines.findIdx? (isFor socket) = some i) (hl : s.lines[i]? = some (.opened l)) :
    l.socket = socket := by
  obtain ⟨hlt, hp, -⟩ := List.findIdx?_eq_some_iff_getElem.1 h
  obtain ⟨hlt', he⟩ := List.getElem?_eq_some_iff.1 hl
  rw [he] at hp
  exact of_decide_eq_true hp

theorem findIdx?_isFor {i : Nat} {l : Link} (hl : s.lines[i]? = some (.opened l)) :
    ∃ j l', s.lines.findIdx? (isFor l.socket) = some j ∧ s.lines[j]? = some (.opened l') ∧
      l'.socket = l.socket := by
  cases hj : s.lines.findIdx? (isFor l.socket) with
  | none =>
    have hno := List.findIdx?_eq_none_iff.1 hj _ (List.mem_of_getElem? hl)
    simp [isFor] at hno
  | some j =>
    obtain ⟨hlt, hfor, -⟩ := List.findIdx?_eq_some_iff_getElem.1 hj
    have hget := List.getElem?_eq_getElem hlt
    cases hx : s.lines[j] with
    | opened l' =>
      rw [hx] at hfor hget
      exact ⟨j, l', rfl, hget, of_decide_eq_true hfor⟩
    | waiting | refused =>
      rw [hx] at hfor
      cases hfor

theorem does_enroll (h : s.act .enroll = some s') : s.Does (.act .enroll) s' := by
  rw [act] at h
  split at h
  · rename_i i rest hnext
    obtain ⟨hidle, h⟩ := Option.ite_none_right_eq_some.1 h
    have hfree := duties_of_idle hidle.1
    obtain rfl := Option.some.inj h
    rw [enrollNext]
    split
    · rename_i name client hwaits
      split
      · exact .admits hfree hnext hwaits ‹_›
      · exact .refuses hfree hnext hwaits ‹_›
    · exact .skips hfree hnext ‹_›
  · cases h

theorem does_hear (hs : s.searches .hear = false) (h : s.act .hear = some s') :
    s.Does (.act .hear) s' := by
  rw [act] at h
  split at h
  · rename_i e rest he
    obtain ⟨hidle, h⟩ := Option.ite_none_right_eq_some.1 h
    have hfree := duties_of_idle hidle.1
    obtain rfl := Option.some.inj h
    cases e with
    | inbound m =>
      rw [searches, he] at hs
      exact .hears hfree he fun hk => by simpa [hk] using hs
    | closed => exact .forgets hfree he
  · cases h

theorem does_tell {d : Duty} {ds : List Duty} (hds : s.duties = d :: ds)
    (hsent : s.deed? (.act .duty) = some (.tell d.socket d.message))
    (h : s.tell d.socket d.message = some s') :
    s.Does (.act .duty) { s' with duties := ds } := by
  rw [tell] at h
  split at h
  · rename_i hnone
    cases h
    exact .loses hds hsent fun i l hi => by cases hnone.symm.trans hi
  rename_i i hfound
  split at h
  · rename_i l hl
    split at h
    · rename_i hclosing
      cases h
      refine .loses hds hsent fun j l' hj hl' => ?_
      obtain rfl := Option.some.inj (hfound.symm.trans hj)
      obtain rfl := Line.opened.inj (Option.some.inj (hl.symm.trans hl'))
      simpa using hclosing
    rename_i haccepting
    obtain ⟨hspace, h⟩ := Option.ite_none_right_eq_some.1 h
    cases h
    exact .queues hds hsent hfound hl (by simpa using haccepting) hspace
  · rename_i hl
    cases h
    refine .loses hds hsent fun j l hj hl' => ?_
    obtain rfl := Option.some.inj (hfound.symm.trans hj)
    exact (hl l hl').elim

theorem does_duty (h : s.act .duty = some s') : s.Does (.act .duty) s' := by
  rw [act] at h
  split at h
  · rename_i d ds hds
    obtain ⟨t, ht, rfl⟩ := Option.map_eq_some_iff.1 h
    cases d with
    | tell socket m => exact does_tell hds (by rw [deed?, hds]; rfl) ht
    | pass n m socket answer =>
      rw [perform] at ht
      split at ht
      · rename_i hdelivered
        cases ht
        exact .passes hds hdelivered
      · cases ht
      · rename_i hended
        exact does_tell hds (by simp only [deed?, hds, hended, Duty.socket, Duty.message]) ht
  · cases h

theorem does_connect (s : Server) (name : String) : s.Does (.connect name) (s.connect name) := by
  rw [connect]
  split
  · rename_i hnamed
    exact .turns (.inl ⟨rfl, by simpa using hnamed⟩)
  · rename_i hnamed
    split
    · exact .turns (.inr ⟨rfl, ‹_›⟩)
    · rename_i hlive
      exact .asks (by simpa using hnamed) (Bool.eq_false_iff.2 hlive)

theorem does_act {a : Act} (hs : s.searches a = false) (h : s.act a = some s') :
    s.Does (.act a) s' := by
  cases a with
  | stop =>
    obtain ⟨⟨hidle, hcancelled⟩, h⟩ := Option.ite_none_right_eq_some.1 h
    obtain rfl := Option.some.inj h
    refine .stops (duties_of_idle hidle) ?_ hcancelled
    simpa using (Bool.and_eq_true_iff.1 hidle).2
  | enroll => exact does_enroll h
  | hear => exact does_hear hs h
  | route n =>
    obtain ⟨hidle, h⟩ := Option.ite_none_right_eq_some.1 h
    obtain ⟨⟨m, games⟩, htakes, rfl⟩ := Option.map_eq_some_iff.1 h
    exact .routes (duties_of_idle hidle.1) htakes
  | duty => exact does_duty h
  | line i a =>
    rw [act] at h
    split at h
    · rename_i hl
      obtain ⟨⟨l', e⟩, hact, rfl⟩ := Option.map_eq_some_iff.1 h
      exact .acts hl hact
    · cases h
  | game n a =>
    obtain ⟨games, hact, rfl⟩ := Option.map_eq_some_iff.1 h
    exact .plays hact

theorem does_move (h : s.move mv = some s') : s.Does mv s' := by
  cases mv with
  | act a =>
    obtain ⟨hs, h⟩ := Option.ite_none_left_eq_some.1 h
    exact does_act (Bool.of_not_eq_true hs) h
  | connect name =>
    obtain rfl := Option.some.inj h
    exact does_connect s name
  | send i f =>
    obtain ⟨hthere, h⟩ := Option.ite_none_left_eq_some.1 h
    obtain rfl := Option.some.inj h
    refine .touches rfl fun x hx => ?_
    obtain ⟨-, rfl⟩ := Move.send.inj hx
    exact Bool.of_not_eq_true hthere
  | drop | mute | sip | unmute =>
    obtain rfl := Option.some.inj h
    exact .touches rfl nofun
  | look =>
    obtain rfl := Option.some.inj h
    exact .looks
  | cancel =>
    obtain rfl := Option.some.inj h
    exact .cancels
  | wait time =>
    obtain rfl := Option.some.inj h
    exact .waits

theorem change_eq (s : Server) (i : Nat) (f : Link → Link) :
    s.change i f = { s with lines := (s.change i f).lines } := by
  rw [change]
  split <;> rfl

theorem Does.step (h : s.Does mv s') : s.lobby.Step s.duties (s.deed? mv) s'.lobby s'.duties := by
  have htell {d : Duty} {ds : List Duty} (hds : s.duties = d :: ds)
      (hsent : s.deed? (.act .duty) = some (.tell d.socket d.message)) :
      s.lobby.Step s.duties (s.deed? (.act .duty)) s.lobby ds := by
    rw [hsent, hds]
    cases d with
    | tell => exact .tell _ _ _
    | pass n m socket answer =>
      simp only [deed?, hds] at hsent
      split at hsent
      · exact .answer _ _ _ ‹_›
      · cases hsent
  cases h with
  | stops | refuses | skips | acts | asks | turns | looks | waits => exact .rest _
  | admits free next waits limits => exact .enroll free limits
  | hears free event ids =>
    rw [deed?, event]
    exact .hear _ free ids
  | forgets free event =>
    rw [deed?, event]
    exact .forget _ free
  | @routes n m games free takes =>
    obtain ⟨m', hlookup, he⟩ := Option.map_eq_some_iff.1 takes
    rw [deed?, hlookup, (Prod.mk.inj he).1]
    exact .route free takes
  | passes due delivered =>
    simp only [deed?, due, delivered]
    exact .pass _ _ _ delivered
  | loses due sent => exact htell due sent
  | queues due sent => exact htell due sent
  | plays act => exact .play _ act
  | touches touch =>
    rw [change_eq]
    cases mv <;> first | exact .rest _ | cases touch
  | cancels => exact .cancel _

theorem move_step (h : s.move mv = some s') :
    s.lobby.Step s.duties (s.deed? mv) s'.lobby s'.duties := (does_move h).step

def vacant : Server :=
  { lobby := { games := { settings := { letters := "CATDOG", handSize := 2 } } } }

theorem fresh_vacant : vacant.Fresh := ⟨rfl, rfl, rfl, rfl, rfl, rfl, rfl, rfl, rfl, rfl⟩

def write (i : Nat) (text : String) : List Move :=
  [.send i (.data (Text.symbolsOf text)), .act (.line i .readFrame), .act (.line i .offer)]

def say (i : Nat) (text : String) : List Move := write i text ++ [.act .hear]

def arrival : List Move :=
  [.connect "ann", .act .enroll, .act .duty] ++
    say 0 "[1,null,null,null,null,null,null,null,null,[9,9],[true,false,2,true]]"

def seating : List Move :=
  [.act .duty, .act (.game 0 .handle), .act (.line 0 .writeNext), .act (.route 0), .act .duty,
   .act (.line 0 .writeNext), .act (.route 0), .act .duty, .act (.line 0 .writeNext)]

end Server

end TileRace
