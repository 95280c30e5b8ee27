import TileRace.Proofs.Registry.Desk

namespace TileRace

/-- A session on a clock, and what has happened to it: which messages it handled and when, what it
said, and when it ended and how. -/
structure Watch where
  session : Option Session
  now : Nat
  handled : List (Nat × Message) := []
  said : List Message := []
  ended : Option (Nat × Session.Act) := none

namespace Watch

/-- A message reaches the session, the session is stopped from outside, it does something by itself,
or time passes. -/
inductive Move where
  | arrive (m : Message)
  | stop
  | act (a : Session.Act)
  | wait (time : Nat)

def start (g : Game) (now : Nat) : Watch := { session := some (.start g now), now }

def step (w : Watch) : Move → Option Watch
  | .arrive m => (w.session.filter (!·.failed)).map fun s =>
      { w with session := some { s with inbox := s.inbox ++ [m] } }
  | .stop => w.session.map fun s => { w with session := some { s with cancelled := true } }
  | .act a => w.session.bind fun s => (s.act w.now a).map fun r => { w with
      session := r.session
      handled := w.handled ++ (s.takes a).map (w.now, ·)
      said := w.said ++ r.out
      ended := if r.session.isSome then none else some (w.now, a) }
  | .wait time => some { w with now := w.now + time }

def run (w : Watch) : List Move → Option Watch
  | [] => some w
  | mv :: mvs => (w.step mv).bind (·.run mvs)

def allows (w : Watch) : Move → Bool
  | .wait time => (w.session.bind Session.timer?).all (w.now + time ≤ ·)
  | _ => true

def punctual (w : Watch) : List Move → Bool
  | [] => true
  | mv :: mvs => w.allows mv && match w.step mv with
    | some w' => w'.punctual mvs
    | none => false

def failed (w : Watch) : Bool := w.session.any (·.failed)

/-- The time at which a game is idle that started at some time and has handled messages since: a
period after its start or the last message that is not for the board again, whichever is later. -/
def idleAt (start period : Nat) (handled : List (Nat × Message)) : Nat :=
  ((handled.filter (·.2.kind ≠ .refreshGameBoard)).map (·.1)).foldl max start + period

/-- When the timer of a game runs out: once the game is idle, if the clock goes on until then, and
far ahead of the start otherwise. -/
def timeout (start period : Nat) (handled : List (Nat × Message)) : Nat :=
  if idleAt start period handled ≤ Time.last then idleAt start period handled
  else start + Time.age

/-- The session runs, and its timer is set to the time at which it is idle. -/
structure Ticks (w : Watch) (start period : Nat) (s : Session) : Prop where
  session : w.session = some s
  runs : s.failed = false
  lasts : w.ended = none
  setting : s.game.settings.idle = period
  deadline : s.deadline = timeout start period w.handled
  ahead : w.now ≤ s.deadline
  near : idleAt start period w.handled ≤ w.now + period
  clock : start + period ≤ Time.last → idleAt start period w.handled ≤ Time.last
  quiet : ∀ o ∈ w.said, o.kind ≠ .gameDeleted

def before (w : Watch) (a : Session.Act) : List (Nat × Message) :=
  if a = .handle then w.handled.dropLast else w.handled

/-- The session has ended, not after the time at which it was idle. If it ended for being idle, then
this was at that time, and the players were told. -/
structure Finished (w : Watch) (start period time : Nat) (a : Session.Act) : Prop where
  session : w.session = none
  ended : w.ended = some (time, a)
  past : time ≤ w.now
  ahead : time ≤ timeout start period (w.before a)
  clock : start + period ≤ Time.last →
    timeout start period (w.before a) = idleAt start period (w.before a)
  idle : a = .expire → time = timeout start period w.handled ∧
    ∃ (before : List Message) (g : Game),
      w.said = before ++ g.leaveAll Session.idleNotice ++ [g.deleted]

/-- The session has failed, not after the time at which it was idle, when it handled a message that
would have put off this time until after the end of the clock. Nobody was told. -/
structure Lost (w : Watch) (start period : Nat) : Prop where
  failed : w.failed
  lasts : w.ended = none
  late : ∃ before time m, w.handled = before ++ [(time, m)] ∧ m.kind ≠ .refreshGameBoard ∧
    time ≤ w.now ∧ time ≤ timeout start period before ∧ Time.last < time + period
  quiet : ∀ o ∈ w.said, o.kind ≠ .gameDeleted

inductive Timed (w : Watch) (start period : Nat) : Prop where
  | ticks {s : Session} (h : w.Ticks start period s)
  | finished {time : Nat} {a : Session.Act} (h : w.Finished start period time a)
  | lost (h : w.Lost start period)

variable {w w' : Watch} {mv : Move} {mvs : List Move} {a : Session.Act} {s : Session} {m : Message}
  {start period : Nat} {handled : List (Nat × Message)} {now : Nat}

theorem idleAt_append : idleAt start period (handled ++ [(now, m)]) =
    if m.kind = .refreshGameBoard then idleAt start period handled
    else max (idleAt start period handled) (now + period) := by
  rw [idleAt, List.filter_append]
  split
  · rename_i hk
    rw [List.filter_cons_of_neg (by simp [hk]), List.filter_nil, List.append_nil, idleAt]
  · rename_i hk
    rw [List.filter_cons_of_pos (by simp [hk]), List.filter_nil, List.map_append, List.foldl_append,
      idleAt]
    exact (Nat.add_max_add_right _ _ _).symm

theorem timeout_of_le (h : idleAt start period handled ≤ Time.last) :
    timeout start period handled = idleAt start period handled := if_pos h

theorem step_act (h : w.step (.act a) = some w') : ∃ s r, w.session = some s ∧
    s.act w.now a = some r ∧ w' = { w with
      session := r.session
      handled := w.handled ++ (s.takes a).map (w.now, ·)
      said := w.said ++ r.out
      ended := if r.session.isSome then none else some (w.now, a) } := by
  obtain ⟨s, hs, h⟩ := Option.bind_eq_some_iff.1 h
  obtain ⟨r, hr, rfl⟩ := Option.map_eq_some_iff.1 h
  exact ⟨s, r, hs, hr, rfl⟩

theorem allows_wait {time : Nat} (h : w.allows (.wait time)) (hs : w.session = some s)
    (hruns : s.failed = false) : w.now + time ≤ s.deadline := by
  rw [allows, hs, Option.bind_some, Session.timer?, hruns] at h
  exact of_decide_eq_true h

theorem timed_start (g : Game) (now : Nat) : (Watch.start g now).Timed now g.settings.idle := by
  refine .ticks ⟨rfl, rfl, rfl, rfl, rfl, ?_, Nat.le_refl _, id, fun _ ho => nomatch ho⟩
  dsimp only [Watch.start, Session.start, Time.due]
  split <;> exact Nat.le_add_right _ _

theorem Ticks.idleAt_handled (h : w.Ticks start period s) (m : Message) :
    idleAt start period (w.handled ++ [(w.now, m)]) =
      if m.kind = .refreshGameBoard then idleAt start period w.handled else w.now + period := by
  rw [idleAt_append, Nat.max_eq_right h.near]

theorem takes_handle {rest : List Message} (h : s.inbox = m :: rest) : s.takes .handle = [m] := by
  rw [Session.takes, h]
  rfl

theorem Ticks.finished {bye : List Message} (h : w.Ticks start period s)
    (ends : s.Ends w.now a bye) : Finished { w with
      session := none
      handled := w.handled ++ (s.takes a).map (w.now, ·)
      said := w.said ++ (bye ++ [s.game.deleted])
      ended := some (w.now, a) } start period w.now a := by
  have hahead : w.now ≤ timeout start period w.handled := h.deadline ▸ h.ahead
  have hbefore : before { w with
      session := none
      handled := w.handled ++ (s.takes a).map (w.now, ·)
      said := w.said ++ (bye ++ [s.game.deleted])
      ended := some (w.now, a) } a = w.handled := by
    cases ends with
    | deleted runs next => simp [before, takes_handle next]
    | idle | halted => simp [before, Session.takes]
  refine ⟨rfl, rfl, Nat.le_refl _, ?_, fun hle => ?_, fun ha => ?_⟩
  · rw [hbefore]
    exact hahead
  · rw [hbefore]
    exact timeout_of_le (h.clock hle)
  subst ha
  cases ends with
  | idle runs due =>
    refine ⟨?_, w.said, s.game, (List.append_assoc _ _ _).symm⟩
    have hnow : w.now = s.deadline := Nat.le_antisymm h.ahead due
    simpa [Session.takes] using hnow.trans h.deadline

theorem Ticks.goes_on {rest : List Message} {deadline : Nat} (h : w.Ticks start period s)
    (hlasts : s.deadlineAfter? m.kind w.now = some deadline) : Ticks { w with
      session := some { s with game := (s.game.handle m).game, inbox := rest, deadline }
      handled := w.handled ++ [(w.now, m)]
      said := w.said ++ (s.game.handle m).out
      ended := none } start period
      { s with game := (s.game.handle m).game, inbox := rest, deadline } := by
  have hidle := h.idleAt_handled m
  have hquiet : ∀ o ∈ w.said ++ (s.game.handle m).out, o.kind ≠ .gameDeleted := fun o ho =>
    (List.mem_append.1 ho).elim (h.quiet o) Game.lasting_handle
  have hsetting : (s.game.handle m).game.settings.idle = period :=
    (congrArg Settings.idle (s.game.progress m).settings).trans h.setting
  rw [Session.deadlineAfter?_eq_some, h.setting] at hlasts
  obtain ⟨hk, rfl⟩ | ⟨hk, hlast, rfl⟩ := hlasts
  · rw [if_pos hk] at hidle
    refine ⟨rfl, h.runs, rfl, hsetting, ?_, h.ahead, hidle ▸ h.near, hidle ▸ h.clock, hquiet⟩
    exact h.deadline.trans (by simp only [timeout, hidle])
  · rw [if_neg hk] at hidle
    refine ⟨rfl, h.runs, rfl, hsetting, ?_, Nat.le_add_right _ _, Nat.le_of_eq hidle,
      fun _ => hidle ▸ hlast, hquiet⟩
    exact hidle.symm.trans (timeout_of_le (hidle ▸ hlast)).symm

theorem Ticks.lost {rest : List Message} {r : Session.Result} (h : w.Ticks start period s)
    (hnext : s.inbox = m :: rest) (hover : s.deadlineAfter? m.kind w.now = none)
    (hsession : r.session = some { s with
      game := (s.game.handle m).game, inbox := [], failed := true })
    (hout : r.out = (s.game.handle m).out) : Lost { w with
      session := r.session
      handled := w.handled ++ (s.takes .handle).map (w.now, ·)
      said := w.said ++ r.out
      ended := if r.session.isSome then none else some (w.now, .handle) } start period := by
  rw [Session.deadlineAfter?_eq_none, h.setting] at hover
  rw [takes_handle hnext, hsession, hout]
  refine ⟨rfl, rfl, ⟨w.handled, w.now, m, rfl, hover.1, Nat.le_refl _, h.deadline ▸ h.ahead,
    hover.2⟩, fun o ho => ?_⟩
  exact (List.mem_append.1 ho).elim (h.quiet o) Game.lasting_handle

theorem Ticks.act (h : w.Ticks start period s) (hstep : w.step (.act a) = some w') :
    w'.Timed start period := by
  obtain ⟨s', r, hs', hr, rfl⟩ := step_act hstep
  obtain rfl := Option.some.inj (h.session.symm.trans hs')
  cases Session.acts_act hr with
  | @handled m rest deadline act next keep lasts session out =>
    subst act
    rw [session, out, takes_handle next]
    exact .ticks (h.goes_on lasts)
  | failed act next late session out =>
    subst act
    exact .lost (h.lost next late session out)
  | ended session ends out =>
    rw [session, out]
    exact .finished (h.finished ends)

theorem Ticks.step (h : w.Ticks start period s) (hallows : w.allows mv)
    (hstep : w.step mv = some w') : w'.Timed start period := by
  obtain ⟨session, runs, lasts, setting, deadline, ahead, near, clock, quiet⟩ := h
  cases mv with
  | arrive m =>
    obtain ⟨s', hs', rfl⟩ := Option.map_eq_some_iff.1 hstep
    obtain ⟨hs', -⟩ := Option.filter_eq_some_iff.1 hs'
    obtain rfl := Option.some.inj (session.symm.trans hs')
    exact .ticks ⟨rfl, runs, lasts, setting, deadline, ahead, near, clock, quiet⟩
  | stop =>
    obtain ⟨s', hs', rfl⟩ := Option.map_eq_some_iff.1 hstep
    obtain rfl := Option.some.inj (session.symm.trans hs')
    exact .ticks ⟨rfl, runs, lasts, setting, deadline, ahead, near, clock, quiet⟩
  | act a =>
    exact Ticks.act ⟨session, runs, lasts, setting, deadline, ahead, near, clock, quiet⟩ hstep
  | wait time =>
    cases hstep
    exact .ticks ⟨session, runs, lasts, setting, deadline, allows_wait hallows session runs,
      Nat.le_trans near (by dsimp only; omega), clock, quiet⟩

theorem Lost.step (h : w.Lost start period) (hstep : w.step mv = some w') :
    w'.Lost start period := by
  obtain ⟨before, time, m, hhandled, hk, hpast, hahead, hlast⟩ := h.late
  obtain ⟨s, hs, hfailed⟩ := (Option.any_eq_true _ _).1 h.failed
  cases mv with
  | arrive =>
    obtain ⟨s', hs', -⟩ := Option.map_eq_some_iff.1 hstep
    obtain ⟨hs', hruns⟩ := Option.filter_eq_some_iff.1 hs'
    obtain rfl := Option.some.inj (hs.symm.trans hs')
    simp [hfailed] at hruns
  | stop =>
    obtain ⟨s', hs', rfl⟩ := Option.map_eq_some_iff.1 hstep
    obtain rfl := Option.some.inj (hs.symm.trans hs')
    exact ⟨hfailed, h.lasts, h.late, h.quiet⟩
  | act =>
    obtain ⟨s', r, hs', hr, -⟩ := step_act hstep
    obtain rfl := Option.some.inj (hs.symm.trans hs')
    cases (Session.failed_eq_false hr).symm.trans hfailed
  | wait d =>
    cases hstep
    exact ⟨h.failed, h.lasts, ⟨before, time, m, hhandled, hk,
      Nat.le_trans hpast (Nat.le_add_right _ _), hahead, hlast⟩, h.quiet⟩

theorem Timed.step (h : w.Timed start period) (hallows : w.allows mv)
    (hstep : w.step mv = some w') : w'.Timed start period := by
  cases h with
  | ticks h => exact h.step hallows hstep
  | finished h =>
    cases mv with
    | arrive | stop | act =>
      rw [Watch.step, h.session] at hstep
      cases hstep
    | wait time =>
      cases hstep
      exact .finished { h with past := Nat.le_trans h.past (Nat.le_add_right _ _) }
  | lost h => exact .lost (h.step hstep)

theorem Timed.run (h : w.Timed start period) (hp : w.punctual mvs) (hrun : w.run mvs = some w') :
    w'.Timed start period := by
  induction mvs generalizing w with
  | nil => exact Option.some.inj hrun ▸ h
  | cons mv mvs ih =>
    obtain ⟨q, hq, hrun⟩ := Option.bind_eq_some_iff.1 hrun
    obtain ⟨hallows, hp⟩ := Bool.and_eq_true_iff.1 hp
    rw [hq] at hp
    exact ih (h.step hallows hq) hp hrun

/-- A session that is idle ends at that time, and not at any other for being idle. A message for the
board again leaves this time as it is, and every other message puts it off, whatever comes of it.
The clock does not go on for ever: a session fails if it is put off until after the end. -/
structure Idles (w : Watch) (start period : Nat) : Prop where
  runs : w.ended = none → w.failed = false →
    (∃ s, w.session = some s) ∧ w.now ≤ timeout start period w.handled ∧
    (start + period ≤ Time.last → timeout start period w.handled = idleAt start period w.handled)
  finished : ∀ time a, w.ended = some (time, a) → w.Finished start period time a
  ends : w.ended = none → w.failed = false →
    ∃ w', w.punctual [.wait (timeout start period w.handled - w.now), .act .expire] ∧
      w.run [.wait (timeout start period w.handled - w.now), .act .expire] = some w' ∧
      w'.ended = some (timeout start period w.handled, .expire)
  handles : ∀ s m rest, w.session = some s → s.failed = false → s.inbox = m :: rest →
    ∃ w', w.step (.act .handle) = some w' ∧ w'.handled = w.handled ++ [(w.now, m)] ∧
      idleAt start period w.handled ≤ w.now + period ∧
      idleAt start period w'.handled =
        (if m.kind = .refreshGameBoard then idleAt start period w.handled else w.now + period) ∧
      (w'.failed ↔ m.kind ≠ .refreshGameBoard ∧ Time.last < w.now + period)
  lost : w.failed → w.Lost start period

theorem Ticks.runs_out (h : w.Ticks start period s) :
    ∃ w', w.punctual [.wait (s.deadline - w.now), .act .expire] ∧
      w.run [.wait (s.deadline - w.now), .act .expire] = some w' ∧
      w'.ended = some (s.deadline, .expire) := by
  have htime : w.now + (s.deadline - w.now) = s.deadline := Nat.add_sub_cancel' h.ahead
  have hwait : w.step (.wait (s.deadline - w.now)) = some { w with now := s.deadline } := by
    rw [Watch.step, htime]
  have hallows : w.allows (.wait (s.deadline - w.now)) := by
    rw [allows, h.session, Option.bind_some, Session.timer?, h.runs, htime]
    exact decide_eq_true (Nat.le_refl _)
  have hact := (Session.Ends.idle h.runs (Nat.le_refl s.deadline)).act_eq
  obtain ⟨w', hexpire, hended⟩ : ∃ w',
      Watch.step { w with now := s.deadline } (.act .expire) = some w' ∧
      w'.ended = some (s.deadline, .expire) := by
    rw [Watch.step, h.session, Option.bind_some, hact]
    exact ⟨_, rfl, rfl⟩
  refine ⟨w', ?_, ?_, hended⟩
  · rw [punctual, hallows, hwait]
    dsimp only
    rw [punctual, hexpire]
    rfl
  · rw [Watch.run, hwait, Option.bind_some, Watch.run, hexpire]
    rfl

theorem Ticks.handles {rest : List Message} (h : w.Ticks start period s)
    (hm : s.inbox = m :: rest) :
    ∃ w', w.step (.act .handle) = some w' ∧ w'.handled = w.handled ++ [(w.now, m)] ∧
      (w'.failed ↔ m.kind ≠ .refreshGameBoard ∧ Time.last < w.now + period) := by
  obtain ⟨w', hstep⟩ : ∃ w', w.step (.act .handle) = some w' := by
    rw [Watch.step, h.session, Option.bind_some, Session.act, if_neg (by simp [h.runs]), hm]
    exact ⟨_, rfl⟩
  obtain ⟨s', r, hs', hr, rfl⟩ := step_act hstep
  obtain rfl := Option.some.inj (h.session.symm.trans hs')
  refine ⟨_, hstep, by rw [takes_handle hm]; rfl, ?_⟩
  rw [← h.setting, ← Session.deadlineAfter?_eq_none, Watch.failed]
  cases Session.acts_act hr with
  | handled act next keep lasts session =>
    obtain ⟨rfl, -⟩ := List.cons.inj (hm.symm.trans next)
    simp [session, h.runs, lasts]
  | failed act next late session =>
    obtain ⟨rfl, -⟩ := List.cons.inj (hm.symm.trans next)
    simp [session, late]
  | ended session ends =>
    cases ends with
    | deleted runs next asks lasts =>
      obtain ⟨rfl, -⟩ := List.cons.inj (hm.symm.trans next)
      simp [session, lasts]

theorem Ticks.idles (h : w.Ticks start period s) : w.Idles start period where
  runs _ _ := ⟨⟨s, h.session⟩, h.deadline ▸ h.ahead, fun hle => timeout_of_le (h.clock hle)⟩
  finished time a hended := by cases h.lasts.symm.trans hended
  ends _ _ := h.deadline ▸ h.runs_out
  handles s' m rest hs _ hm := by
    obtain rfl := Option.some.inj (h.session.symm.trans hs)
    obtain ⟨w', hstep, hhandled, hfailed⟩ := h.handles hm
    exact ⟨w', hstep, hhandled, h.near, hhandled ▸ h.idleAt_handled m, hfailed⟩
  lost hfailed := by
    rw [Watch.failed, h.session, Option.any_some, h.runs] at hfailed
    cases hfailed

theorem Finished.idles {time : Nat} (h : w.Finished start period time a) :
    w.Idles start period where
  runs hended := by cases h.ended.symm.trans hended
  finished time' a' hended := by
    cases h.ended.symm.trans hended
    exact h
  ends hended := by cases h.ended.symm.trans hended
  handles s m rest hs := by cases h.session.symm.trans hs
  lost hfailed := by
    rw [Watch.failed, h.session, Option.any_none] at hfailed
    cases hfailed

theorem Lost.idles (h : w.Lost start period) : w.Idles start period where
  runs _ hruns := by cases hruns.symm.trans h.failed
  finished time a hended := by cases h.lasts.symm.trans hended
  ends _ hruns := by cases hruns.symm.trans h.failed
  handles s m rest hs hruns := by
    have hfailed := h.failed
    rw [Watch.failed, hs, Option.any_some, hruns] at hfailed
    cases hfailed
  lost _ := h

def pastime : List Move :=
  [.arrive { kind := .joinGame, player := some "ann" }, .act .handle, .wait 4,
   .arrive { kind := .snagGameTile, player := some "ann" }, .act .handle, .wait 6,
   .arrive { kind := .refreshGameBoard, player := some "ann" }, .act .handle, .wait 3,
   .arrive { kind := .refreshGameBoard, player := some "ann" }, .act .handle, .wait 1, .act .expire]

/-- A game that would be idle only at the end of the clock fails if it has to start anew. -/
example : ∃ g w, Game.setUp 1 { letters := "CATDOGS", handSize := 3, idle := Time.last }
      .standard .standard ⟨["CAT"]⟩ 0 = .ok g ∧
    (Watch.start g 0).run [.wait 1, .arrive { kind := .joinGame, player := some "ann" },
      .act .handle] = some w ∧
    w.failed ∧ w.said.map (·.kind) = [.joinGame, .gameInfoChanged] :=
  ⟨_, _, rfl, rfl, rfl, rfl⟩

end Watch

end TileRace
