import TileRace.Proofs.Server.Disguise
import TileRace.Proofs.Server.Duties
import TileRace.Proofs.Server.Listing
import TileRace.Proofs.Server.Trackers

namespace TileRace

/-- What the lobby does for others to notice: it puts a message into the inbox of a session, or it
sends one to a connection. -/
inductive Effect where
  | put (session : Nat) (m : Message)
  | sent (socket : SocketId) (m : Message)
  deriving DecidableEq

namespace Effect

def putInto (n : Nat) : Effect → Option Message
  | .put k m => if k = n then some m else none
  | .sent .. => none

def sentTo (socket : SocketId) : Effect → Option Message
  | .sent k m => if k = socket then some m else none
  | .put .. => none

end Effect

inductive Duty.Does : Duty → Effect → Prop where
  | tell (k m) : Does (.tell k m) (.sent k m)
  | pass (n m k answer) : Does (.pass n m k answer) (.put n m)
  | answer (n m k answer) : Does (.pass n m k answer) (.sent k answer)

namespace Server

/-- The lobby takes up a request, a newcomer, or a message of a game. -/
def Move.takesUp : Move → Bool
  | .act .hear | .act .enroll | .act (.route _) => true
  | _ => false

def effect? (s : Server) : Move → Option Effect
  | .act .duty => match s.duties with
    | .tell k m :: _ => some (.sent k m)
    | .pass n m k answer :: _ => match s.lobby.games.deliver n m with
      | .accepted _ => some (.put n m)
      | .ended => some (.sent k answer)
      | .full => none
    | [] => none
  | _ => none

/-- What the lobby does in a run, up to the first move that is not possible. -/
def effects (s : Server) : List Move → List Effect
  | [] => []
  | mv :: mvs => match s.move mv with
    | some s' => (s.effect? mv).toList ++ s'.effects mvs
    | none => []

/-- What a move of the lobby's shows to others. A session takes from its own inbox and a connection
from its own queue; what is sent to a connection that is closing is lost. -/
structure Shows (s : Server) (mv : Move) (s' : Server) : Prop where
  inbox : ∀ n, (∀ a, mv ≠ .act (.game n a)) → s'.lobby.games.inbox n =
    s.lobby.games.inbox n ++ ((s.effect? mv).bind (Effect.putInto n)).toList
  live : ∀ n m, s.effect? mv = some (.put n m) → s.lobby.games.runs n
  queue : ∀ i l l', s.link? i = some l → s'.link? i = some l' → (∀ a, mv ≠ .act (.line i a)) →
    l'.queue =
      l.queue ++ if l.accepting then ((s.effect? mv).bind (Effect.sentTo l.socket)).toList else []

/-- What may come of a request that the lobby took up in `s`. A new game is asked to let in the one
who wanted it. -/
inductive Fits (s : Server) (k : SocketId) (m : Message) (u : Server) : Effect → Prop where
  | forwarded {n id} (kind : m.kind ≠ .createGame) (about : m.gameId = some id)
    (room : s.lobby.games.rooms.get? id = some n) : Fits s k m u (.put n m)
  | created {n id join} (kind : m.kind = .createGame)
    (free : s.lobby.games.rooms.get? id = none) (room : u.lobby.games.rooms.get? id = some n)
    (joins : join.kind = .joinGame) (about : join.gameId = some id)
    (player : join.player = m.player) (socket : join.socket = some k) : Fits s k m u (.put n join)
  | answered (answer) : Fits s k m u (.sent k answer)

/-- What has become of the request `m` of a connection, which the lobby took up in `s`. As long as
nothing has come of it, something can, without the lobby or anybody outside doing anything else. -/
structure Dispatches (s : Server) (k : SocketId) (m : Message) (mvs : List Move) (u : Server) :
    Prop where
  once : s.effects mvs = [] ∧ u.duties ≠ [] ∧ (∃ t, u.Awaits t ∧ t.duties = []) ∨
    u.duties = [] ∧ ∃ e, s.effects mvs = [e] ∧ s.Fits k m u e
  infos : u.lobby.infos = s.lobby.infos
  register : u.lobby.register = s.lobby.register
  others : ∀ j, j ≠ k → u.lobby.gameOf j = s.lobby.gameOf j
  rooms : u.lobby.games.rooms = s.lobby.games.rooms ∨ m.kind = .createGame ∧
    ∃ id n, s.lobby.games.rooms.get? id = none ∧
      u.lobby.games.rooms = s.lobby.games.rooms.insert id n
  shown : ∀ before mv after v v', mvs = before ++ mv :: after → s.run before = some v →
    v.move mv = some v' → v.Shows mv v'

variable {s s' t u : Server} {mv : Move} {mvs : List Move} {m : Message} {k : SocketId} {i : Nat}

theorem effect?_of_ne (h : mv ≠ .act .duty) : s.effect? mv = none := by
  rw [effect?]
  exact h

theorem effects_cons (h : s.move mv = some s') :
    s.effects (mv :: mvs) = (s.effect? mv).toList ++ s'.effects mvs := by
  rw [effects, h]

theorem sentTo_of_ne {socket : SocketId} (h : socket ≠ k) :
    Effect.sentTo k (.sent socket m) = none := if_neg h

theorem effect?_of_tell (h : s.deed? (.act .duty) = some (.tell k m)) :
    s.effect? (.act .duty) = some (.sent k m) := by
  cases hds : s.duties with
  | nil => simp [deed?, hds] at h
  | cons d ds =>
    cases d with
    | tell k' m' =>
      simp only [deed?, hds] at h
      obtain ⟨rfl, rfl⟩ := Deed.tell.inj (Option.some.inj h)
      simp only [effect?, hds]
    | pass n o k' answer =>
      cases hd : s.lobby.games.deliver n o with
      | ended =>
        simp only [deed?, hds, hd] at h
        obtain ⟨rfl, rfl⟩ := Deed.tell.inj (Option.some.inj h)
        simp only [effect?, hds, hd]
      | accepted | full => simp [deed?, hds, hd] at h

theorem effect?_of_pass {n : Nat} {answer : Message} {ds : List Duty} {games : Registry}
    (hds : s.duties = .pass n m k answer :: ds)
    (h : s.lobby.games.deliver n m = .accepted games) :
    s.effect? (.act .duty) = some (.put n m) := by
  simp only [effect?, hds, h]

theorem runs_of_deliver {r games : Registry} {n : Nat} (h : r.deliver n m = .accepted games) :
    r.runs n := by
  rw [Registry.deliver] at h
  split at h
  · cases h
  · rename_i session hn
    split at h
    · cases h
    · rename_i hruns
      rw [Registry.runs, hn]
      simpa using hruns

theorem queue_duty (hs : s.Listed) (h : s.Does (.act .duty) s') {l l' : Link}
    (hl : s.link? i = some l) (hl' : s'.link? i = some l') : l'.queue = l.queue ++
      if l.accepting then
        ((s.effect? (.act .duty)).bind (Effect.sentTo l.socket)).toList else [] := by
  have hkept (hsame : s'.link? i = s.link? i)
      (hno : l.accepting → (s.effect? (.act .duty)).bind (Effect.sentTo l.socket) = none) :
      l'.queue = l.queue ++ if l.accepting then
        ((s.effect? (.act .duty)).bind (Effect.sentTo l.socket)).toList else [] := by
    obtain rfl := Option.some.inj (hl'.symm.trans (hsame.trans hl))
    split
    · rw [hno ‹_›]
      exact (List.append_nil _).symm
    · exact (List.append_nil _).symm
  cases h with
  | passes due delivered => exact hkept rfl fun _ => by rw [effect?_of_pass due delivered]; rfl
  | @loses d ds due sent closing =>
    refine hkept rfl fun ha => ?_
    rw [effect?_of_tell sent]
    refine sentTo_of_ne fun hk => ?_
    obtain ⟨j, l₀, hfound, hl₀, hsocket⟩ := findIdx?_isFor (link?_eq_some.1 hl)
    obtain rfl := hs.distinct hl (link?_eq_some.2 hl₀) hsocket.symm
    obtain rfl := Line.opened.inj (Option.some.inj (hl₀.symm.trans (link?_eq_some.1 hl)))
    exact Bool.false_ne_true ((closing _ _ (hk ▸ hfound) hl₀).symm.trans ha)
  | @queues d ds j l₀ due sent found link accepting =>
    have hk : l₀.socket = d.socket := socket_of_isFor found link
    have hset := link?_set (x := .opened { l₀ with queue := l₀.queue ++ [d.message] }) (i := i) link
    by_cases hij : j = i
    · subst hij
      obtain rfl := Option.some.inj ((link?_eq_some.2 link).symm.trans hl)
      obtain rfl := Option.some.inj (hl'.symm.trans (hset.trans (if_pos rfl)))
      rw [if_pos accepting, effect?_of_tell sent]
      simp [Effect.sentTo, hk]
    · refine hkept (hset.trans (if_neg hij)) fun _ => ?_
      rw [effect?_of_tell sent]
      exact sentTo_of_ne fun he => hij (hs.distinct (link?_eq_some.2 link) hl (hk.trans he))
  | touches touch => cases touch

theorem shows_duty (hs : s.Listed) (h : s.move (.act .duty) = some s') :
    s.Shows (.act .duty) s' := by
  have hdoes := does_move h
  have hsent {k : SocketId} {m : Message} (h : s.deed? (.act .duty) = some (.tell k m)) :
      (∀ n, ((s.effect? (.act .duty)).bind (Effect.putInto n)).toList = []) ∧
        ∀ n o, s.effect? (.act .duty) ≠ some (.put n o) := by
    rw [effect?_of_tell h]
    exact ⟨fun _ => rfl, fun _ _ he => by cases he⟩
  refine ⟨fun n _ => ?_, fun n o ho => ?_, fun i l l' hl hl' _ => queue_duty hs hdoes hl hl'⟩
  · cases hdoes with
    | @passes n' m k answer ds games due delivered =>
      rw [effect?_of_pass due delivered]
      refine ((Registry.deliver_eq_accepted delivered).2 n).trans ?_
      by_cases hn : n = n'
      · simp [Effect.putInto, hn]
      · simp [Effect.putInto, hn, Ne.symm hn]
    | loses due sent | queues due sent =>
      rw [(hsent sent).1 n]
      exact (List.append_nil _).symm
    | touches touch => cases touch
  · cases hdoes with
    | passes due delivered =>
      rw [effect?_of_pass due delivered] at ho
      obtain ⟨rfl, -⟩ := Effect.put.inj (Option.some.inj ho)
      exact runs_of_deliver delivered
    | loses due sent | queues due sent => exact ((hsent sent).2 n o ho).elim
    | touches touch => cases touch

theorem shows_move (hc : s.lobby.Consistent) (hs : s.Listed) (h : s.move mv = some s') :
    s.Shows mv s' := by
  by_cases hmv : mv = .act .duty
  · subst hmv
    exact shows_duty hs h
  · have heffect := effect?_of_ne (s := s) hmv
    refine ⟨fun n hgame => ?_, fun n m hm => ?_, fun i l l' hl hl' hline => ?_⟩
    · rw [heffect]
      exact (inbox_of_ne hc h hmv hgame).trans (List.append_nil _).symm
    · rw [heffect] at hm
      cases hm
    · rw [heffect]
      obtain ⟨k, hk, houtside⟩ := outside_move hl h hline
      obtain rfl := Option.some.inj (hk.symm.trans hl')
      obtain hsame | ⟨_, _, hduty, -⟩ := houtside.same_or_queued
      · simp [hsame.queue]
      · exact (hmv hduty).elim

/-- Until the lobby takes up something else, nobody comes or goes, and no game is registered or
given up. -/
structure Idles (s s' : Server) : Prop where
  frame : s'.lobby = { s.lobby with games := s'.lobby.games }
  rooms : s'.lobby.games.rooms = s.lobby.games.rooms

theorem Idles.refl (s : Server) : s.Idles s := ⟨rfl, rfl⟩

theorem Idles.trans (h : s.Idles t) (h' : t.Idles u) : s.Idles u where
  frame := by rw [h'.frame, h.frame]
  rooms := h'.rooms.trans h.rooms

theorem Idles.of_eq (h : s'.lobby = s.lobby) : s.Idles s' := ⟨by rw [h], by rw [h]⟩

theorem idles_move (h : s.move mv = some s') (hmv : mv.takesUp = false) : s.Idles s' := by
  cases does_move h with
  | stops | loses | queues | acts | asks | turns | looks | waits => exact .of_eq rfl
  | passes due delivered => exact ⟨rfl, (Registry.deliver_eq_accepted delivered).1.rooms⟩
  | plays act =>
    obtain ⟨session, result, -, hplays⟩ := Registry.act_eq_some act
    exact ⟨rfl, hplays.rooms⟩
  | touches =>
    rw [change_eq]
    exact .of_eq rfl
  | cancels => exact ⟨rfl, s.lobby.games.alike_cancel.rooms⟩
  | _ => cases hmv

theorem idles_run (hrun : s.run mvs = some s') (hmvs : ∀ mv ∈ mvs, mv.takesUp = false) :
    s.Idles s' := by
  induction mvs generalizing s with
  | nil =>
    obtain rfl := Option.some.inj hrun
    exact .refl s
  | cons mv mvs ih =>
    obtain ⟨t, ht, hrun⟩ := run_cons.1 hrun
    obtain ⟨hmv, hmvs⟩ := List.forall_mem_cons.1 hmvs
    exact (idles_move ht hmv).trans (ih hrun hmvs)

theorem kept_duties (hc : s.lobby.Consistent) (h : s.move mv = some s')
    (hmv : mv.takesUp = false) (hduty : mv ≠ .act .duty) : s'.duties = s.duties := by
  cases assigns_of_ne hc h (by rintro rfl; cases hmv) hduty with
  | kept enroll route same => exact same
  | enrolled move | routed move =>
    subst move
    cases hmv

theorem does_sent (d : Duty) : d.Does (.sent d.socket d.message) := by
  cases d with
  | tell k m => exact .tell k m
  | pass n m k answer => exact .answer n m k answer

/-- A duty stays until it is done, and is done once. -/
theorem effect_move (hc : s.lobby.Consistent) (h : s.move mv = some s')
    (hmv : mv.takesUp = false) : s.effect? mv = none ∧ s'.duties = s.duties ∨
      ∃ d e, s.duties = d :: s'.duties ∧ s.effect? mv = some e ∧ d.Does e := by
  by_cases hduty : mv = .act .duty
  · subst hduty
    refine .inr ?_
    cases does_move h with
    | passes due delivered => exact ⟨_, _, due, effect?_of_pass due delivered, .pass ..⟩
    | loses due sent | queues due sent => exact ⟨_, _, due, effect?_of_tell sent, does_sent _⟩
    | touches touch => cases touch
  · exact .inl ⟨effect?_of_ne hduty, kept_duties hc h hmv hduty⟩

theorem effects_of_free (hc : s.lobby.Consistent) (hds : s.duties = [])
    (hrun : s.run mvs = some s') (hmvs : ∀ mv ∈ mvs, mv.takesUp = false) :
    s.effects mvs = [] ∧ s'.duties = [] := by
  induction mvs generalizing s with
  | nil =>
    obtain rfl := Option.some.inj hrun
    exact ⟨rfl, hds⟩
  | cons mv mvs ih =>
    obtain ⟨t, ht, hrun⟩ := run_cons.1 hrun
    obtain ⟨hmv, hmvs⟩ := List.forall_mem_cons.1 hmvs
    obtain ⟨heffect, hsame⟩ | ⟨d, e, hd, -⟩ := effect_move hc ht hmv
    · rw [effects_cons ht, heffect]
      exact ih (hc.step (move_step ht)) (hsame.trans hds) hrun hmvs
    · cases hds.symm.trans hd

theorem effects_of_due {d : Duty} (hc : s.lobby.Consistent) (hds : s.duties = [d])
    (hrun : s.run mvs = some s') (hmvs : ∀ mv ∈ mvs, mv.takesUp = false) :
    s.effects mvs = [] ∧ s'.duties = [d] ∨
      s'.duties = [] ∧ ∃ e, s.effects mvs = [e] ∧ d.Does e := by
  induction mvs generalizing s with
  | nil =>
    obtain rfl := Option.some.inj hrun
    exact .inl ⟨rfl, hds⟩
  | cons mv mvs ih =>
    obtain ⟨t, ht, hrun⟩ := run_cons.1 hrun
    obtain ⟨hmv, hmvs⟩ := List.forall_mem_cons.1 hmvs
    have hc' := hc.step (move_step ht)
    rw [effects_cons ht]
    obtain ⟨heffect, hsame⟩ | ⟨d', e, hd, heffect, hdoes⟩ := effect_move hc ht hmv
    · rw [heffect]
      exact ih hc' (hsame.trans hds) hrun hmvs
    · obtain ⟨rfl, hnil⟩ := List.cons.inj (hds.symm.trans hd)
      obtain ⟨hrest, hfree⟩ := effects_of_free hc' hnil.symm hrun hmvs
      rw [heffect, hrest]
      exact .inr ⟨hfree, e, rfl, hdoes⟩

theorem socket_of_event {s₀ : Server} {before : List Move} {rest : List Event} (h₀ : s₀.Fresh)
    (hrun : s₀.run before = some s) (he : s.events = .inbound m :: rest) :
    ∃ k, m.socket = some k := by
  have hat : s.at? (.queued 0) = some m := by
    rw [at?, he]
    rfl
  obtain ⟨-, -, -, -, -, l, o, -, -, -, -, -, -, hbecomes⟩ := read_of_at? h₀ hrun hat
  exact ⟨l.socket, (marks_of_becomes hbecomes).2.1⟩

theorem gameOf_receive {now j : Nat} (hk : m.socket = some k) (hj : j ≠ k) :
    (s.lobby.receive now m).1.gameOf j = s.lobby.gameOf j := by
  have hr := s.lobby.receives_receive now m
  generalize (s.lobby.receive now m).1 = l', (s.lobby.receive now m).2 = ds at hr ⊢
  cases hr with
  | dropped | created | passed | answered => rfl
  | left sent =>
    obtain rfl := Option.some.inj (sent.symm.trans hk)
    rw [Lobby.gameOf_setGame_none, if_neg hj]

theorem infos_receive (l : Lobby) (now : Nat) (m : Message) :
    (l.receive now m).1.infos = l.infos := by
  have hr := l.receives_receive now m
  generalize (l.receive now m).1 = l', (l.receive now m).2 = ds at hr ⊢
  cases hr <;> rfl

structure Charges (s : Server) (k : SocketId) (m : Message) (t : Server) : Prop where
  rooms : t.lobby.games.rooms = s.lobby.games.rooms ∨ m.kind = .createGame ∧
    ∃ id n, s.lobby.games.rooms.get? id = none ∧
      t.lobby.games.rooms = s.lobby.games.rooms.insert id n
  duty : ∃ d, t.duties = [d] ∧ ∀ u, u.lobby.games.rooms = t.lobby.games.rooms →
    ∀ e, d.Does e → s.Fits k m u e

theorem charges_create (hc : s.lobby.Consistent) (hk : m.socket = some k) {now : Nat}
    (hkind : m.kind = .createGame) (hleft : s.lobby.games.exhausted = false)
    (hlobby : t.lobby = (s.lobby.create now k m).1) (hds : t.duties = (s.lobby.create now k m).2) :
    s.Charges k m t := by
  rw [Lobby.create] at hlobby hds
  cases hcreate : s.lobby.games.create now m with
  | error e =>
    rw [hcreate] at hlobby hds
    refine ⟨.inl (by rw [hlobby]), _, hds, fun u _ e hdoes => ?_⟩
    cases hdoes
    exact .answered _
  | ok c =>
    rw [hcreate] at hlobby hds
    obtain ⟨session, hopens⟩ := Registry.create_eq_ok hcreate
    have hfree := (Registry.nextId_free hc.zero hopens.notFull hleft).2
    have hgames : t.lobby.games = c.registry := by rw [hlobby]
    have hrooms : t.lobby.games.rooms =
        s.lobby.games.rooms.insert s.lobby.games.nextId s.lobby.games.started := by
      rw [hgames, hopens.registry]
    refine ⟨.inr ⟨hkind, _, _, hfree, hrooms⟩, _, hds, fun u hu e hdoes => ?_⟩
    cases hdoes with
    | pass =>
      rw [hopens.session]
      refine .created hkind hfree ?_ hopens.kind ?_ ?_ (hopens.socket.trans hk)
      · rw [hu, hrooms, Table.get?_insert, if_pos rfl]
      · rw [Registry.join_create hcreate]
      · rw [Registry.join_create hcreate]
        rfl
    | answer => exact .answered _

theorem charges_receive (hc : s.lobby.Consistent) (hk : m.socket = some k) {now : Nat}
    (hleft : m.kind = .createGame → s.lobby.games.exhausted = false)
    (hlobby : t.lobby = (s.lobby.receive now m).1) (hds : t.duties = (s.lobby.receive now m).2) :
    s.Charges k m t := by
  by_cases hkind : m.kind = .createGame
  · have hcreate : s.lobby.receive now m = s.lobby.create now k m := by
      simp only [Lobby.receive, hk, hkind]
    rw [hcreate] at hlobby hds
    exact charges_create hc hk hkind (hleft hkind) hlobby hds
  · have hr := s.lobby.receives_receive now m
    rw [← hlobby, ← hds] at hr
    generalize hl : t.lobby = l', hd : t.duties = ds at hr
    cases hr with
    | dropped unsent => cases unsent.symm.trans hk
    | created sent kind => exact (hkind kind).elim
    | left sent | answered sent =>
      obtain rfl := Option.some.inj (sent.symm.trans hk)
      refine ⟨.inl (congrArg (·.games.rooms) hl), _, hd, fun u _ e hdoes => ?_⟩
      cases hdoes
      exact .answered _
    | passed sent kind found =>
      obtain rfl := Option.some.inj (sent.symm.trans hk)
      refine ⟨.inl (by rw [hl]), _, hd, fun u _ e hdoes => ?_⟩
      cases hdoes with
      | pass =>
        obtain ⟨id, hid, hroom⟩ := Registry.find_eq_ok.1 found
        exact .forwarded hkind hid hroom
      | answer => exact .answered _

/-- The lobby does one thing about a request: it passes it on to one game, or sends one answer to
the connection that it came from. It changes nothing else but the game that this connection is in,
or that there is one more game. -/
theorem request_dispatched {s₀ : Server} {before : List Move} {rest : List Event} (h₀ : s₀.Fresh)
    (hcapacity : 0 < s₀.capacity) (hinboxes : 0 < s₀.lobby.games.capacity)
    (hs : s₀.run before = some s) (he : s.events = .inbound m :: rest)
    (hrun : s.run (.act .hear :: mvs) = some u) (hmvs : ∀ mv ∈ mvs, mv.takesUp = false) :
    ∃ k, m.socket = some k ∧ s.Dispatches k m (.act .hear :: mvs) u := by
  obtain ⟨k, hk⟩ := socket_of_event h₀ hs he
  have hc := consistent_run h₀.consistent hs
  obtain ⟨t, ht, hrest⟩ := run_cons.1 hrun
  obtain ⟨hsearch, -⟩ := Option.ite_none_left_eq_some.1 ht
  have hleft (hkind : m.kind = .createGame) : s.lobby.games.exhausted = false := by
    rw [searches, he] at hsearch
    simpa [hkind] using hsearch
  have hidles := idles_run hrest hmvs
  obtain ⟨e, he', -, ⟨o, rfl, hlobby, hds⟩ | ⟨hnone, -⟩⟩ := hear_move ht
  case inr =>
    rw [he] at he'
    rw [← (List.cons.inj he').1] at hnone
    cases hnone
  obtain rfl := Event.inbound.inj (List.cons.inj (he.symm.trans he')).1
  obtain ⟨hrooms, d, hd, hfits⟩ := charges_receive hc hk hleft hlobby hds
  have hframe : u.lobby.register = t.lobby.register ∧ u.lobby.infos = t.lobby.infos ∧
      ∀ j, u.lobby.gameOf j = t.lobby.gameOf j := by
    rw [hidles.frame]
    exact ⟨rfl, rfl, fun _ => rfl⟩
  refine ⟨k, hk, ?_, ?_, ?_, fun j hj => ?_, ?_, ?_⟩
  · rw [effects_cons ht, effect?_of_ne (by simp)]
    obtain ⟨hnone, hdue⟩ | ⟨hfree, e, heffects, hdoes⟩ :=
      effects_of_due (hc.step (move_step ht)) hd hrest hmvs
    · have hflows := ((h₀.flows hcapacity hinboxes).run hs).run hrun
      exact .inl ⟨hnone, by simp [hdue], duty_opens hflows hdue⟩
    · exact .inr ⟨hfree, e, heffects, hfits u hidles.rooms e hdoes⟩
  · rw [hframe.2.1, hlobby, infos_receive]
  · rw [hframe.1, hlobby, Lobby.register_receive]
  · rw [hframe.2.2, hlobby, gameOf_receive hk hj]
  · rw [hidles.rooms]
    exact hrooms
  · rintro before' mv after v v' - hv hmove
    have hv₀ : s₀.run (before ++ before') = some v := by
      rw [run_append, hs]
      exact hv
    exact shows_move (consistent_run h₀.consistent hv₀) (listed_run h₀ hv₀).2 hmove

def wishing : List Move :=
  [.connect "ann", .act .enroll, .act .duty] ++
    write 0 "[1,null,null,null,null,null,null,null,null,[9,9],[true,false,2,true]]"

theorem request_dispatched_wishing : ∃ s u m join, vacant.Fresh ∧ 0 < vacant.capacity ∧
    0 < vacant.lobby.games.capacity ∧ vacant.run wishing = some s ∧ s.events = [.inbound m] ∧
    m.kind = .createGame ∧ s.run [.act .hear, .act .duty] = some u ∧
    s.Dispatches 1 m [.act .hear, .act .duty] u ∧
    s.effects [.act .hear, .act .duty] = [.put 0 join] ∧ join.kind = .joinGame := by
  have hrun : vacant.run wishing = some _ := rfl
  obtain ⟨k, hk, hdispatches⟩ := request_dispatched fresh_vacant Nat.one_pos Nat.one_pos hrun rfl
    (rfl : run _ [.act .hear, .act .duty] = some _) (by simp [Move.takesUp])
  obtain rfl := Option.some.inj hk
  exact ⟨_, _, _, _, fresh_vacant, Nat.one_pos, Nat.one_pos, hrun, rfl, rfl, rfl, hdispatches, rfl,
    rfl⟩

end Server

end TileRace
