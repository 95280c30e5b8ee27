import TileRace.Proofs.Server.Closure
import TileRace.Proofs.Server.Privacy

namespace TileRace

def Event.socket? : Event → Option SocketId
  | .inbound m => m.socket
  | .closed _ k => some k

theorem Link.socket_event {l l' : Link} {now : Nat} {intake : Intake} {a : Act} {e : Event}
    (hsigned : ∀ m, l.offer? = some m → m.socket = some l.socket)
    (h : l.act now intake a = some (l', some e)) : e.socket? = some l.socket := by
  cases e with
  | inbound m =>
    cases reads_act h with
    | read _ _ _ quiet | stopped _ _ quiet => cases quiet
    | offered _ before _ event =>
      split at event
      · cases event
        exact hsigned m before
      · cases event
    | kept _ _ _ _ quiet => exact (quiet m rfl).elim
  | closed name k => exact congrArg some ((closed_act h).2.1.symm.trans (identity_act h).socket)

namespace Server

/-- A server without one of its connections: its line, its entry, what is yet to be heard of it and
what is yet to be sent to it. -/
def apart (s : Server) (i : Nat) (k : SocketId) : Server :=
  { s with
    now := 0
    lobby := s.lobby.forget k
    lines := s.lines.eraseIdx i
    events := s.events.filter (·.socket? ≠ some k)
    duties := s.duties.filter (·.socket ≠ k) }

/-- What follows from the end of a connection: what it still does itself, that the lobby hears of
the end, and that replies are on the way to it. -/
inductive Follows (s : Server) (i : Nat) (k : SocketId) : Move → Prop where
  | own (a : Link.Act) : Follows s i k (.act (.line i a))
  | heard {name rest} (next : s.events = .closed name k :: rest) : Follows s i k (.act .hear)
  | reply {m} (sent : s.deed? (.act .duty) = some (.tell k m)) : Follows s i k (.act .duty)
  | wait (time : Nat) : Follows s i k (.wait time)

/-- A move concerns nobody but one connection, and at most strikes it off. -/
structure Spares (s : Server) (i : Nat) (k : SocketId) (mv : Move) (s' : Server) : Prop where
  apart : s'.apart i k = s.apart i k
  sent : ∀ d, s.deed? mv = some d → ∃ m, d = .tell k m
  lobby : s'.lobby = s.lobby ∨ mv = .act .hear ∧ s'.lobby = s.lobby.forget k

inductive Aftermath (i : Nat) (k : SocketId) : Server → Server → Prop where
  | done (s : Server) : Aftermath i k s s
  | step {s t u mv} (follows : s.Follows i k mv) (move : s.move mv = some t)
    (rest : Aftermath i k t u) : Aftermath i k s u

/-- All that a connection still does by itself can be done. -/
def Stops (s : Server) (i : Nat) (name : String) (k : SocketId) : Prop :=
  ∃ l now, l.reader = .stopped ∧ l.writer = .stopped ∧ l.name = name ∧ l.socket = k ∧
    s.Aftermath i k { s.setLine i (.opened l) with now }

/-- Where the lobby sends what a game says to a connection: to it while it is registered, and
otherwise to those of its player that are in the game. -/
structure Redirects (l : Lobby) (name : String) (k : SocketId) (m : Message) (ds : List Duty) :
    Prop where
  meant : l.nameOf k = some name → ds = [.tell k m]
  others : l.nameOf k = none → ∃ ks : List SocketId, ds = ks.map (.tell · m) ∧ ks.Nodup ∧
    ∀ p, p ∈ ks ↔ p ≠ k ∧ l.nameOf p = some name ∧ l.gameOf p = m.gameId

/-- How a server lives on after one of its connections has ended. Whatever follows from the end
concerns nobody else and at most strikes the connection off; the lobby hears of the end, and does
nothing else then. Who was struck off stays so, and what a game says to it goes to others. -/
structure Isolates (i : Nat) (name : String) (k : SocketId) (s : Server) : Prop where
  spares : ∀ mv s', s.Follows i k mv → s.move mv = some s' → s.Spares i k mv s'
  apart : ∀ u, s.Aftermath i k u →
    u.apart i k = s.apart i k ∧ (u.lobby = s.lobby ∨ u.lobby = s.lobby.forget k)
  reports : s.intake ≠ .full →
    .closed name k ∈ s.events ∨ s.lobby.nameOf k = none ∨ s.closed ∨ ∃ lines now,
      s.Aftermath i k { s with lines, now, events := s.events ++ [.closed name k] }
  hears : ∀ rest, s.events = .closed name k :: rest → s.idle → s.cancelled = false →
    s.move (.act .hear) = some { s with events := rest, lobby := s.lobby.forget k }
  ends : s.events = [] → s.duties = [] → s.cancelled = false → s.intake = .accepting →
    ∃ u, s.Aftermath i k u ∧ u.lobby = s.lobby.forget k
  stays : s.lobby.nameOf k = none → ∀ mvs u, s.run mvs = some u → u.lobby.nameOf k = none
  routes : ∀ n m player s', s.deed? (.act (.route n)) = some (.route n m) →
    m.player = some player → m.socket = some k → s.move (.act (.route n)) = some s' →
    Redirects s.lobby player k m s'.duties

variable {s₀ s s' t u : Server} {mv : Move} {mvs : List Move} {i n : Nat} {l l' : Link}
  {a : Link.Act} {e : Option Event} {k : SocketId} {m : Message} {name : String}

theorem move_line (hl : s.link? i = some l) : s.move (.act (.line i a)) =
    (l.act s.now s.intake a).map fun (l', e) =>
      { s.setLine i (.opened l') with events := s.events ++ e.toList } := by
  rw [move, if_neg (by simp [searches]), act, link?_eq_some.mp hl]

theorem move_hear {rest : List Event} (hnext : s.events = .closed name k :: rest) :
    s.move (.act .hear) = if s.idle ∧ !s.cancelled then
      some { s with events := rest, lobby := s.lobby.forget k } else none := by
  rw [move, if_neg (by simp [searches, hnext]), act, hnext]

theorem spares_own (hs : s.Signed) (hl : s.link? i = some l)
    (h : s.move (.act (.line i a)) = some s') : s.Spares i l.socket (.act (.line i a)) s' := by
  rw [move_line hl] at h
  obtain ⟨⟨l', e⟩, hlink, rfl⟩ := Option.map_eq_some_iff.mp h
  have hevents : e.toList.filter (·.socket? ≠ some l.socket) = [] := by
    refine List.filter_eq_nil_iff.mpr fun x hx => ?_
    obtain rfl := Option.mem_toList.mp hx
    simp [Link.socket_event (hs i l hl) hlink]
  refine ⟨?_, fun d hd => by simp [deed?] at hd, .inl rfl⟩
  simp only [apart, setLine, List.eraseIdx_set_eq, List.filter_append, hevents, List.append_nil]

theorem forget_of_nameOf {l : Lobby} (h : l.nameOf k = none) : l.forget k = l := by
  rw [Lobby.forget, Table.erase_of_get?_eq_none (Option.map_eq_none_iff.mp h)]

theorem forget_forget (l : Lobby) (k : SocketId) : (l.forget k).forget k = l.forget k := by
  apply forget_of_nameOf
  rw [Lobby.nameOf, Lobby.forget, Table.get?_erase, if_pos rfl]
  rfl

theorem spares_heard {rest : List Event} (hnext : s.events = .closed name k :: rest)
    (h : s.move (.act .hear) = some s') : s.Spares i k (.act .hear) s' := by
  rw [move_hear hnext] at h
  obtain ⟨-, h⟩ := Option.ite_none_right_eq_some.mp h
  obtain rfl := Option.some.inj h
  refine ⟨?_, fun d hd => by simp [deed?, hnext] at hd, .inr ⟨rfl, rfl⟩⟩
  simp only [apart, forget_forget, hnext]
  simp [Event.socket?]

theorem tell_own (hs : s.Listed) (hl : s.link? i = some l) (h : s.tell l.socket m = some t) :
    ∃ lines, t = { s with lines } ∧ lines.eraseIdx i = s.lines.eraseIdx i := by
  rw [tell] at h
  split at h
  case h_1 =>
    cases h
    exact ⟨s.lines, rfl, rfl⟩
  case h_2 j hj =>
    split at h
    case h_1 l' hl' =>
      obtain rfl : j = i := hs.distinct (link?_eq_some.mpr hl') hl (socket_of_isFor hj hl')
      split at h
      · cases h
        exact ⟨s.lines, rfl, rfl⟩
      · split at h
        · cases h
          exact ⟨_, rfl, List.eraseIdx_set_eq⟩
        · cases h
    case h_2 =>
      cases h
      exact ⟨s.lines, rfl, rfl⟩

theorem perform_of_deed (h : s.deed? (.act .duty) = some (.tell k m)) :
    ∃ d rest, s.duties = d :: rest ∧ d.socket = k ∧ s.perform d = s.tell k m := by
  rw [deed?] at h
  split at h
  case h_1 hds =>
    cases h
    exact ⟨_, _, hds, rfl, rfl⟩
  case h_2 hds =>
    split at h
    case h_1 hended =>
      cases h
      refine ⟨_, _, hds, rfl, ?_⟩
      rw [perform, hended]
    case h_2 => cases h
  case h_3 => cases h

theorem spares_reply (hs : s.Listed) (hl : s.link? i = some l)
    (hsent : s.deed? (.act .duty) = some (.tell l.socket m)) (h : s.move (.act .duty) = some s') :
    s.Spares i l.socket (.act .duty) s' := by
  obtain ⟨d, rest, hds, hk, hperform⟩ := perform_of_deed hsent
  have hact := act_of_move h
  simp only [act, hds] at hact
  obtain ⟨t, ht, rfl⟩ := Option.map_eq_some_iff.mp hact
  obtain ⟨lines, rfl, hlines⟩ := tell_own hs hl (hperform ▸ ht)
  refine ⟨?_, fun d hd => ⟨m, Option.some.inj (hd.symm.trans hsent)⟩, .inl rfl⟩
  simp only [apart, hlines, hds]
  simp [hk]

theorem Follows.spares (h : s.Follows i l.socket mv) (hsigned : s.Signed) (hs : s.Listed)
    (hl : s.link? i = some l) (hmv : s.move mv = some s') : s.Spares i l.socket mv s' := by
  cases h with
  | own a => exact spares_own hsigned hl hmv
  | heard next => exact spares_heard next hmv
  | reply sent => exact spares_reply hs hl sent hmv
  | wait time =>
    obtain rfl := Option.some.inj hmv
    exact ⟨rfl, fun d hd => by simp [deed?] at hd, .inl rfl⟩

theorem Spares.trans (h : s.Spares i k mv t) (h' : u.apart i k = t.apart i k)
    (hlobby : u.lobby = t.lobby ∨ u.lobby = t.lobby.forget k) :
    u.apart i k = s.apart i k ∧ (u.lobby = s.lobby ∨ u.lobby = s.lobby.forget k) := by
  refine ⟨h'.trans h.apart, ?_⟩
  obtain hsame | ⟨-, hgone⟩ := h.lobby
  · rwa [hsame] at hlobby
  · rw [hgone, forget_forget, or_self] at hlobby
    exact .inr hlobby

theorem run_trans {mvs' : List Move} (h : s.run mvs = some t) (h' : t.run mvs' = some u) :
    s.run (mvs ++ mvs') = some u := by
  rw [run_append, h]
  exact h'

theorem Aftermath.spares (h : s.Aftermath i k u) (h₀ : s₀.Fresh) (hrun : s₀.run mvs = some s)
    (hl : s.link? i = some l) (hk : l.socket = k) :
    u.apart i k = s.apart i k ∧ (u.lobby = s.lobby ∨ u.lobby = s.lobby.forget k) := by
  -- The invariants hold of what was reached from the start, so the run up to here grows along.
  induction h generalizing l mvs with
  | done => exact ⟨rfl, .inl rfl⟩
  | @step s t u mv follows move rest ih =>
    subst hk
    have hspares := follows.spares (signed_run h₀ hrun) (listed_run h₀ hrun).2 hl move
    obtain ⟨l', hl', same⟩ := link?_after move hl
    obtain ⟨hapart, hlobby⟩ := ih (run_trans hrun (run_single move)) hl' same.socket
    exact hspares.trans hapart hlobby

theorem Aftermath.trans (h : s.Aftermath i k t) (h' : t.Aftermath i k u) : s.Aftermath i k u := by
  induction h with
  | done => exact h'
  | step follows move _ ih => exact .step follows move (ih h')

theorem Aftermath.run (h : s.Aftermath i k u) : ∃ mvs, s.run mvs = some u := by
  induction h with
  | done => exact ⟨[], rfl⟩
  | @step s t u mv _ move _ ih =>
    obtain ⟨mvs, hrun⟩ := ih
    exact ⟨mv :: mvs, run_cons.mpr ⟨t, move, hrun⟩⟩

theorem own_possible (hl : s.link? i = some l) (hact : l.act s.now s.intake a = some (l', e)) :
    s.move (.act (.line i a)) =
      some { s.setLine i (.opened l') with events := s.events ++ e.toList } := by
  rw [move_line hl, hact]
  rfl

theorem hear_possible {rest : List Event} (hnext : s.events = .closed name k :: rest)
    (hidle : s.idle) (hlive : s.cancelled = false) :
    s.move (.act .hear) = some { s with events := rest, lobby := s.lobby.forget k } := by
  rw [move_hear hnext, if_pos (by simp [hidle, hlive])]

theorem link?_setLine_self (hl : s.link? i = some l) :
    (s.setLine i (.opened l')).link? i = some l' := by
  rw [link?_setLine (lt_of_link? hl), if_pos rfl]
  rfl

theorem Stops.wait (time : Nat) (h : ({ s with now := s.now + time }).Stops i name k) :
    s.Stops i name k := by
  obtain ⟨l, now, hreader, hwriter, hname, hk, h⟩ := h
  exact ⟨l, now, hreader, hwriter, hname, hk, .step (.wait time) rfl h⟩

theorem Stops.own (hl : s.link? i = some l) (hact : l.act s.now s.intake a = some (l', none))
    (h : (s.setLine i (.opened l')).Stops i l'.name l'.socket) : s.Stops i l.name l.socket := by
  rw [(Link.identity_act hact).name, (Link.identity_act hact).socket] at h
  obtain ⟨l₁, now, hreader, hwriter, hname, hk, h⟩ := h
  refine ⟨l₁, now, hreader, hwriter, hname, hk, .step (.own a) (own_possible hl hact) ?_⟩
  simpa [setLine] using h

theorem stops_ended (hl : s.link? i = some l) (hreader : l.reader = .stopped)
    (hwriter : l.writer = .stopped) : s.Stops i l.name l.socket := by
  refine ⟨l, s.now, hreader, hwriter, rfl, rfl, ?_⟩
  have hsame : s.setLine i (.opened l) = s := by
    obtain ⟨_, hi⟩ := List.getElem?_eq_some_iff.mp (link?_eq_some.mp hl)
    rw [setLine, ← hi, List.set_getElem_self]
  rw [hsame]
  exact .done s

theorem stops_closing (hl : s.link? i = some l) (hreader : l.reader = .stopped)
    (hwriter : l.writer = .stopped ∨ ∃ d, l.writer = .closing d) : s.Stops i l.name l.socket := by
  obtain hwriter | ⟨d, hwriter⟩ := hwriter
  · exact stops_ended hl hreader hwriter
  · have hact : l.act (s.now + (d - s.now)) s.intake .closeTimeout =
        some ({ l with writer := .stopped, pending := [] }.letGo, none) := by
      simp only [Link.act, hwriter]
      rw [if_pos (.inl (by omega))]
    obtain ⟨client, pending, hgo, -⟩ := Link.letGo_eq { l with writer := .stopped, pending := [] }
    rw [hgo] at hact
    refine .wait (d - s.now) (.own (by exact hl) hact ?_)
    exact stops_ended (link?_setLine_self (by exact hl)) hreader rfl

theorem stops_writing (hl : s.link? i = some l) (hreader : l.reader = .stopped)
    (hc : l.cancelled) : s.Stops i l.name l.socket := by
  have hclosing {s : Server} {a : Link.Act} (hl : s.link? i = some l)
      (hact : l.act s.now s.intake a = some (l.beginClose s.now, none)) :
      s.Stops i l.name l.socket := by
    refine .own hl hact (stops_closing (link?_setLine_self hl) ?_ (l.closing_beginClose _).writer)
    obtain ⟨_, _, _, _, hclose, -⟩ := (l.shuts_beginClose s.now).frame
    rw [hclose]
    exact hreader
  cases hwriter : l.writer with
  | ready => exact hclosing hl (a := .writeStop) (if_pos ⟨hwriter, hc⟩)
  | writing d =>
    refine .wait (d - s.now) (hclosing (by exact hl) (a := .writeTimeout) ?_)
    simp only [Link.act, hwriter]
    rw [if_pos (.inl (by omega))]
  | closing d => exact stops_closing hl hreader (.inr ⟨d, hwriter⟩)
  | stopped => exact stops_closing hl hreader (.inl hwriter)

theorem stops (hl : s.link? i = some l) (hc : l.cancelled) : s.Stops i l.name l.socket := by
  by_cases hreader : l.reader = .stopped
  · exact stops_writing hl hreader hc
  · have hact : l.act s.now s.intake .readStop = some ({ l with reader := .stopped }.letGo, none) :=
      if_pos ⟨hc, hreader⟩
    obtain ⟨client, pending, hgo, -⟩ := Link.letGo_eq { l with reader := .stopped }
    rw [hgo] at hact
    exact .own hl hact (stops_writing (link?_setLine_self hl) rfl hc)

/-- A connection that was cancelled tells the lobby of its end, unless the lobby knows already. -/
theorem reports_end (h₀ : s₀.Fresh) (hrun : s₀.run mvs = some s) (hl : s.link? i = some l)
    (hc : l.cancelled) (hfree : s.intake ≠ .full) :
    .closed l.name l.socket ∈ s.events ∨ s.lobby.nameOf l.socket = none ∨ s.closed ∨
      ∃ lines now, s.Aftermath i l.socket
        { s with lines, now, events := s.events ++ [.closed l.name l.socket] } := by
  obtain ⟨l', now, hreader, hwriter, hname, hk, hafter⟩ := stops hl hc
  have hl' : ({ s.setLine i (.opened l') with now }).link? i = some l' := link?_setLine_self hl
  cases hr : l'.reported with
  | true =>
    -- It has reported before, perhaps long ago: the lobby was told and has not forgotten since.
    obtain ⟨mvs', hrun'⟩ := hafter.run
    have hheard := announced_run h₀ (run_trans hrun hrun') i l' hl' hr
    obtain hmem | hnone | hclosed := hheard.of_eq hk.symm hname.symm
    · exact .inl hmem
    · exact .inr (.inl hnone)
    · exact .inr (.inr (.inl hclosed))
  | false =>
    cases hintake : s.intake with
    | full => exact (hfree hintake).elim
    | shut =>
      rw [intake] at hintake
      split at hintake
      · exact .inr (.inr (.inl ‹_›))
      · split at hintake <;> cases hintake
    | accepting =>
      have hact : l'.act now s.intake .report =
          some ({ l' with reported := true }, some (.closed l.name l.socket)) := by
        simp [Link.act, hreader, hwriter, hr, hintake, hname, hk]
      have hreport := own_possible hl' hact
      exact .inr (.inr (.inr ⟨_, now, hafter.trans (.step (.own _) hreport (.done _))⟩))

theorem strikes_off (h₀ : s₀.Fresh) (hrun : s₀.run mvs = some s) (hl : s.link? i = some l)
    (hc : l.cancelled) (hevents : s.events = []) (hduties : s.duties = [])
    (hlive : s.cancelled = false) (hfree : s.intake = .accepting) :
    ∃ u, s.Aftermath i l.socket u ∧ u.lobby = s.lobby.forget l.socket := by
  have hopen : s.closed = false := by
    cases hclosed : s.closed with
    | false => rfl
    | true => simp [intake, hclosed] at hfree
  obtain hmem | hnone | hclosed | ⟨lines, now, hafter⟩ :=
    reports_end h₀ hrun hl hc (by simp [hfree])
  · rw [hevents] at hmem
    cases hmem
  · exact ⟨s, .done s, (forget_of_nameOf hnone).symm⟩
  · rw [hopen] at hclosed
    cases hclosed
  · have hnext : s.events ++ [.closed l.name l.socket] = [.closed l.name l.socket] := by
      rw [hevents, List.nil_append]
    have hidle : s.idle := by simp [idle, hduties, hopen]
    exact ⟨_, hafter.trans (.step (.heard hnext) (hear_possible hnext hidle hlive) (.done _)), rfl⟩

theorem struck_run (hatt : s.Attended) (hs : s.Listed) (hl : s.link? i = some l)
    (hnone : s.lobby.nameOf l.socket = none) (hrun : s.run mvs = some u) :
    u.lobby.nameOf l.socket = none := by
  induction mvs generalizing s l with
  | nil =>
    obtain rfl := Option.some.inj hrun
    exact hnone
  | cons mv mvs ih =>
    obtain ⟨t, hmove, hrun⟩ := run_cons.mp hrun
    obtain ⟨l', hl', same⟩ := link?_after hmove hl
    have hnone' : t.lobby.nameOf l'.socket = none := by
      rw [same.socket]
      obtain hsame | ⟨hgone, -⟩ := hs.nameOf (hatt.registers hmove) hl
      · exact hsame.trans hnone
      · exact hgone
    rw [← same.socket]
    exact ih (hatt.move hmove) (hs.move hatt hmove) hl' hnone' hrun

theorem redirects_route (h₀ : s₀.Fresh) (hrun : s₀.run mvs = some s)
    (hdeed : s.deed? (.act (.route n)) = some (.route n m)) (hname : m.player = some name)
    (hm : m.socket = some k) (h : s.move (.act (.route n)) = some s') :
    Redirects s.lobby name k m s'.duties := by
  have hduties := (guards_run h₀ hrun).routed hdeed hname h
  have hks := s.lobby.addresses_targets name m
  refine ⟨fun hk => ?_, fun hk => ⟨_, hduties, hks.nodup, fun p => ?_⟩⟩
  · rw [hduties, hks.meant k hm hk]
    rfl
  · have helse (q : SocketId) (hq : m.socket = some q) : s.lobby.nameOf q ≠ some name := by
      obtain rfl := Option.some.inj (hm.symm.trans hq)
      rw [hk]
      exact nofun
    rw [hks.present helse]
    refine ⟨fun hp => ⟨?_, hp⟩, And.right⟩
    rintro rfl
    cases hk.symm.trans hp.1

theorem isolates (h₀ : s₀.Fresh) (hrun : s₀.run mvs = some s) (hl : s.link? i = some l)
    (hc : l.cancelled) : s.Isolates i l.name l.socket where
  spares _ _ hmv h := hmv.spares (signed_run h₀ hrun) (listed_run h₀ hrun).2 hl h
  apart _ h := h.spares h₀ hrun hl rfl
  reports := reports_end h₀ hrun hl hc
  hears _ := hear_possible
  ends := strikes_off h₀ hrun hl hc
  stays hnone _ _ := struck_run (listed_run h₀ hrun).1 (listed_run h₀ hrun).2 hl hnone
  routes _ _ _ _ := redirects_route h₀ hrun

/-- However a connection ends, nobody else is affected: neither by the end itself nor by anything
that follows from it later. -/
theorem ending_isolated (h₀ : s₀.Fresh) (hrun : s₀.run mvs = some s) (hl : s.link? i = some l)
    (hends : l.Ends a) (hend : s.move (.act (.line i a)) = some s') :
    s.Spares i l.socket (.act (.line i a)) s' ∧ s'.lobby = s.lobby ∧
      ∀ mvs' t, s'.run mvs' = some t → t.Isolates i l.name l.socket := by
  have hspares := spares_own (signed_run h₀ hrun) hl hend
  refine ⟨hspares, hspares.lobby.resolve_right (by simp), fun mvs' t ht => ?_⟩
  obtain ⟨l₀, l₁, e, hl₀, hact, hl₁, -⟩ := line_move hend
  obtain rfl := Option.some.inj (hl₀.symm.trans hl)
  obtain ⟨l', hl', hsocket, hname, hc⟩ := cancelled_run ht hl₁ (hends.cancelled hact).1
  have hsame := Link.identity_act hact
  rw [← hsame.name, ← hname, ← hsame.socket, ← hsocket]
  exact isolates h₀ (run_trans (run_trans hrun (run_single hend)) ht) hl' hc

def blunder : List Move :=
  arrival ++ seating ++ [.connect "bob", .act .enroll, .act .duty] ++ say 0 "[10]" ++
    [.act .duty, .act (.game 0 .handle), .send 0 (.data (Text.symbolsOf "?"))]

theorem ending_isolated_blunder : ∃ s s' t t' u l m, vacant.Fresh ∧ vacant.run blunder = some s ∧
    s.link? 0 = some l ∧ l.Ends .readFrame ∧ s.move (.act (.line 0 .readFrame)) = some s' ∧
    s'.lobby = s.lobby ∧ s'.Aftermath 0 1 u ∧ u.lobby = s.lobby.forget 1 ∧
    s'.run [.act (.line 0 .writeStop), .act (.line 0 .report), .act .hear] = some t ∧
    t.lobby.nameOf 1 = none ∧ t.lobby.nameOf 2 = some "bob" ∧
    t.deed? (.act (.route 0)) = some (.route 0 m) ∧ m.player = some "ann" ∧ m.socket = some 1 ∧
    t.move (.act (.route 0)) = some t' ∧
    ∃ ks : List SocketId, t'.duties = ks.map (.tell · m) ∧ ∀ p ∈ ks, p ≠ 1 := by
  have hrun : vacant.run blunder = some _ := rfl
  obtain ⟨-, hlobby, hafter⟩ := ending_isolated fresh_vacant hrun (rfl : link? _ 0 = some _)
    (.undecodable rfl rfl rfl) rfl
  obtain ⟨u, hu, hgone⟩ := (hafter [] _ rfl).ends rfl rfl rfl rfl
  have hlater := hafter [.act (.line 0 .writeStop), .act (.line 0 .report), .act .hear] _ rfl
  obtain ⟨ks, hks, -, hothers⟩ := (hlater.routes 0 _ "ann" _ rfl rfl rfl rfl).others rfl
  exact ⟨_, _, _, _, u, _, _, fresh_vacant, hrun, rfl, .undecodable rfl rfl rfl, rfl, hlobby, hu,
    hlobby ▸ hgone, rfl, rfl, rfl, rfl, rfl, rfl, rfl, ks, hks, fun p hp => ((hothers p).mp hp).1⟩

end Server

end TileRace
