import TileRace.Proofs.Server.Moves

namespace TileRace

/-- Where a request is. It is read from a client and offered to the lobby, waits among the events of
the lobby, becomes a duty of the lobby, and waits in the inbox of a session. -/
inductive Place where
  | offered (line : Nat)
  | queued (position : Nat)
  | due (position : Nat)
  | inbox (session position : Nat)
  | handled (session : Nat)
  | answered (answer : Message)
  | gone

def Place.waits : Place → Bool
  | .offered _ | .queued _ => true
  | _ => false

def Place.ofDuties : List Duty → Place
  | [.pass ..] => .due 0
  | [.tell _ answer] => .answered answer
  | _ => .gone

namespace Server

def at? (s : Server) : Place → Option Message
  | .offered i => (s.link? i).bind Link.offer?
  | .queued p => s.events[p]?.bind Event.request?
  | .due p => s.duties[p]?.bind Duty.request?
  | .inbox n p => (s.lobby.games.inbox n)[p]?
  | _ => none

def takenUp (s : Server) : Place := match s.events with
  | .inbound m :: _ => .ofDuties (s.lobby.receive s.now m).2
  | _ => .gone

def passedOn (s : Server) : Place := match s.duties with
  | .pass n m _ answer :: _ => match s.lobby.games.deliver n m with
    | .accepted _ => .inbox n (s.lobby.games.inbox n).length
    | .ended => .answered answer
    | .full => .gone
  | _ => .gone

/-- Where a request is after a move from `s` to `s'`. What is left in the inbox of a session that
ends or fails is gone. -/
def onward (s : Server) (mv : Move) (s' : Server) : Place → Place
  | .offered i =>
    if mv = .act (.line i .offer) then
      if s.intake = .accepting then .queued s.events.length else .gone
    else if mv = .act (.line i .readStop) then .gone
    else .offered i
  | .queued p =>
    if mv = .act .hear then if p = 0 then s.takenUp else .queued (p - 1)
    else if mv = .act .stop then .gone
    else .queued p
  | .due p =>
    if mv = .act .duty then if p = 0 then s.passedOn else .due (p - 1) else .due p
  | .inbox n p =>
    if mv = .act (.game n .handle) ∧ p = 0 then .handled n
    else
      let p := if mv = .act (.game n .handle) then p - 1 else p
      if p < (s'.lobby.games.inbox n).length then .inbox n p else .gone
  | p => p

def journey (s : Server) (p : Place) : List Move → Place
  | [] => p
  | mv :: mvs => match s.move mv with
    | some s' => s'.journey (s.onward mv s' p) mvs
    | none => p

variable {s s' : Server} {mv : Move} {mvs : List Move} {m : Message} {i n : Nat}

theorem journey_cons {p : Place} (h : s.move mv = some s') :
    s.journey p (mv :: mvs) = s'.journey (s.onward mv s' p) mvs := by
  rw [journey, h]

theorem journey_end {p : Place} (h : ∀ (s s' : Server) mv, s.onward mv s' p = p) (s : Server)
    (mvs : List Move) : s.journey p mvs = p := by
  induction mvs generalizing s with
  | nil => rfl
  | cons mv mvs ih =>
    rw [journey]
    split
    · rw [h]
      exact ih _
    · rfl

theorem journey_append {p : Place} (h : s.run mvs = some s') (mvs' : List Move) :
    s.journey p (mvs ++ mvs') = s'.journey (s.journey p mvs) mvs' := by
  induction mvs generalizing s p with
  | nil =>
    obtain rfl := Option.some.inj h
    rfl
  | cons mv mvs ih =>
    obtain ⟨t, ht, hrun⟩ := run_cons.1 h
    rw [List.cons_append, journey_cons ht, journey_cons ht, ih hrun]

theorem onward_offered (offer : mv ≠ .act (.line i .offer)) (stop : mv ≠ .act (.line i .readStop)) :
    s.onward mv s' (.offered i) = .offered i := by
  rw [onward, if_neg offer, if_neg stop]

inductive Offers (s : Server) (mv : Move) (s' : Server) (i : Nat) : Prop where
  | kept (next : s.onward mv s' (.offered i) = .offered i)
    (same : s'.at? (.offered i) = s.at? (.offered i))
  | read {l} (move : mv = .act (.line i .readFrame)) (link : s.link? i = some l)
    (before : s.at? (.offered i) = none) (after : s'.at? (.offered i) = l.reading?.map l.stamp)
  | gone (next : s.onward mv s' (.offered i) = .gone) (after : s'.at? (.offered i) = none)
  | taken {m : Message} (before : s.at? (.offered i) = some m) (after : s'.at? (.offered i) = none)
    (next : s.onward mv s' (.offered i) = .queued s.events.length)
    (events : s'.events = s.events ++ [.inbound m])

theorem offers_line {a : Link.Act} (h : s.move (.act (.line i a)) = some s') :
    s.Offers (.act (.line i a)) s' i := by
  obtain ⟨l, l', e, hl, ha, hl', hevents, -⟩ := line_move h
  have hbefore : s.at? (.offered i) = l.offer? := by rw [at?, hl]; rfl
  have hafter : s'.at? (.offered i) = l'.offer? := by rw [at?, hl']; rfl
  cases Link.reads_act ha with
  | read act before after =>
    exact .read (by rw [act]) hl (hbefore.trans before) (hafter.trans after)
  | stopped act after =>
    refine .gone ?_ (hafter.trans after)
    rw [act, onward, if_neg nofun, if_pos rfl]
  | kept read offer stop same =>
    exact .kept (onward_offered (by simpa using offer) (by simpa using stop))
      (hafter.trans (same.trans hbefore.symm))
  | offered act before after event =>
    have hnext : s.onward (.act (.line i a)) s' (.offered i) =
        if s.intake = .accepting then .queued s.events.length else .gone := by
      rw [act, onward, if_pos rfl]
    by_cases hin : s.intake = .accepting
    · rw [if_pos hin] at hnext event
      rw [event] at hevents
      exact .taken (hbefore.trans before) (hafter.trans after) hnext hevents
    · rw [if_neg hin] at hnext
      exact .gone hnext (hafter.trans after)

theorem offers_move (h : s.move mv = some s') (i : Nat) : s.Offers mv s' i := by
  by_cases hline : ∃ a, mv = .act (.line i a)
  · obtain ⟨a, rfl⟩ := hline
    exact offers_line h
  · have hidle : ∀ a, mv ≠ .act (.line i a) := not_exists.1 hline
    refine .kept (onward_offered (hidle _) (hidle _)) ?_
    have hbefalls := (turns_move h).befalls i
    rw [at?, at?]
    generalize s.link? i = o, s'.link? i = o' at hbefalls ⊢
    cases hbefalls with
    | none => rfl
    | outside houtside => exact Link.offer?_congr houtside.reader
    | acts move => exact (hidle _ move).elim
    | opened => rfl

theorem events_grow (h : s.move mv = some s') (hear : mv ≠ .act .hear) (stop : mv ≠ .act .stop) :
    ∃ e : Option Event, s'.events = s.events ++ e.toList ∧ ∀ m, e = some (.inbound m) →
      ∃ i, s.at? (.offered i) = some m ∧
        s.onward mv s' (.offered i) = .queued s.events.length := by
  by_cases hline : ∃ i a, mv = .act (.line i a)
  · obtain ⟨i, a, rfl⟩ := hline
    obtain ⟨l, l', e, hl, ha, -, hevents, -⟩ := line_move h
    refine ⟨e, hevents, fun m he => ⟨i, ?_⟩⟩
    subst he
    cases Link.reads_act ha with
    | read act before after quiet | stopped act after quiet => cases quiet
    | kept read offer stop same quiet => exact (quiet m rfl).elim
    | offered act before after event =>
      split at event
      · rename_i hin
        obtain rfl := Event.inbound.inj (Option.some.inj event)
        refine ⟨?_, by rw [act, onward, if_pos rfl, if_pos hin]⟩
        rw [at?, hl]
        exact before
      · cases event
  · refine ⟨none, ?_, fun m he => by cases he⟩
    rw [events_of_ne h hear stop fun i a he => hline ⟨i, a, he⟩]
    exact (List.append_nil _).symm

theorem waits_move {p : Place} (h : s.move mv = some s') (hw : p.waits) (hp : s.at? p = some m) :
    s.onward mv s' p = .gone ∨ p = .queued 0 ∧ mv = .act .hear ∨
      (s.onward mv s' p).waits ∧ s'.at? (s.onward mv s' p) = some m := by
  cases p with
  | due | inbox | handled | answered | gone => cases hw
  | offered i =>
    cases offers_move h i with
    | kept next same => exact .inr (.inr ⟨by rw [next]; rfl, by rw [next, same, hp]⟩)
    | read move link before => cases before.symm.trans hp
    | gone next => exact .inl next
    | taken before after next events =>
      obtain rfl := Option.some.inj (before.symm.trans hp)
      refine .inr (.inr ⟨by rw [next]; rfl, ?_⟩)
      rw [next, at?, events]
      simp [Event.request?]
  | queued p =>
    by_cases hear : mv = .act .hear
    · subst hear
      obtain ⟨e, he, -⟩ := hear_move h
      cases p with
      | zero => exact .inr (.inl ⟨rfl, rfl⟩)
      | succ p =>
        rw [at?, he] at hp
        exact .inr (.inr ⟨rfl, hp⟩)
    by_cases stop : mv = .act .stop
    · exact .inl (by rw [onward, if_neg hear, if_pos stop])
    have hnext : s.onward mv s' (.queued p) = .queued p := by rw [onward, if_neg hear, if_neg stop]
    obtain ⟨e, he, -⟩ := events_grow h hear stop
    refine .inr (.inr ⟨by rw [hnext]; rfl, ?_⟩)
    rw [at?] at hp
    obtain ⟨e', he', -⟩ := Option.bind_eq_some_iff.1 hp
    rw [hnext, at?, he, List.getElem?_append_left (List.getElem?_eq_some_iff.1 he').1]
    exact hp

/-- A request that has come further than to wait was taken up on the way. -/
theorem taken_of_journey {p : Place} (hrun : s.run mvs = some s') (hw : p.waits)
    (hp : s.at? p = some m) (hend : (s.journey p mvs).waits = false)
    (hgone : s.journey p mvs ≠ .gone) : ∃ before after t t',
      mvs = before ++ .act .hear :: after ∧ s.run before = some t ∧
      s.journey p before = .queued 0 ∧ t.at? (.queued 0) = some m ∧
      t.move (.act .hear) = some t' ∧ t'.run after = some s' ∧
      t'.journey t.takenUp after = s.journey p mvs := by
  induction mvs generalizing s p with
  | nil => cases hw.symm.trans hend
  | cons mv mvs ih =>
    obtain ⟨r, hr, hrest⟩ := run_cons.1 hrun
    rw [journey_cons hr] at hend hgone ⊢
    obtain hnext | ⟨rfl, rfl⟩ | ⟨hw, hp⟩ := waits_move hr hw hp
    · rw [hnext, journey_end fun _ _ _ => rfl] at hgone
      exact (hgone rfl).elim
    · exact ⟨[], mvs, s, r, rfl, rfl, rfl, hp, hr, hrest, rfl⟩
    · obtain ⟨before, after, t, t', rfl, ht, hjourney, hat, hmv, hafter, hlast⟩ :=
        ih hrest hw hp hend hgone
      refine ⟨mv :: before, after, t, t', rfl, ?_, ?_, hat, hmv, hafter, hlast⟩
      · rw [run, hr]
        exact ht
      · rw [journey_cons hr, hjourney]

theorem takes_up (h : s.move (.act .hear) = some s') (hp : s.at? (.queued 0) = some m) :
    s.lobby.Receives s.now m s'.lobby s'.duties ∧ s.takenUp = .ofDuties s'.duties := by
  obtain ⟨e, he, -, ⟨o, rfl, hlobby, hds⟩ | ⟨hnone, -⟩⟩ := hear_move h
  · rw [at?, he] at hp
    obtain rfl := Option.some.inj hp
    rw [takenUp, he, hlobby, hds]
    exact ⟨s.lobby.receives_receive s.now o, rfl⟩
  · rw [at?, he] at hp
    cases hnone.symm.trans hp

/-- A request that is to be passed on to a session gets there, or is answered for it. -/
def Bound (s : Server) (n : Nat) (answer : Message) : Place → Prop
  | .due p => ∃ m socket, s.duties[p]? = some (.pass n m socket answer)
  | .inbox k _ | .handled k => k = n
  | .answered a => a = answer
  | .gone => True
  | .offered _ | .queued _ => False

theorem bound_passedOn {answer : Message} {socket : SocketId} {ds : List Duty}
    (h : s.duties = .pass n m socket answer :: ds) (t : Server) : t.Bound n answer s.passedOn := by
  rw [passedOn, h]
  dsimp only
  cases s.lobby.games.deliver n m with
  | accepted | ended => exact rfl
  | full => exact trivial

theorem bound_move {answer : Message} {p : Place} (hl : s.lobby.Consistent)
    (h : s.move mv = some s') (hp : s.Bound n answer p) :
    s'.Bound n answer (s.onward mv s' p) := by
  cases p with
  | offered | queued => exact hp.elim
  | handled | answered | gone => exact hp
  | inbox k p =>
    rw [onward]
    split
    · exact hp
    · dsimp only
      generalize (if mv = .act (.game k .handle) then p - 1 else p) = q
      split
      · exact hp
      · exact trivial
  | due p =>
    obtain ⟨m, socket, hp⟩ := hp
    by_cases duty : mv = .act .duty
    · subst duty
      obtain ⟨d, hds, -⟩ := duty_move h
      rw [hds] at hp
      cases p with
      | zero =>
        obtain rfl := Option.some.inj hp
        exact bound_passedOn hds s'
      | succ p => exact ⟨m, socket, hp⟩
    rw [onward, if_neg duty]
    have hne : s.duties ≠ [] := by
      intro hds
      rw [hds] at hp
      cases hp
    by_cases hear : mv = .act .hear
    · subst hear
      obtain ⟨-, -, hds, -⟩ := hear_move h
      exact (hne hds).elim
    obtain hsame | ⟨hds, -⟩ := duties_of_ne hl h hear duty
    · exact ⟨m, socket, hsame ▸ hp⟩
    · exact (hne hds).elim

theorem bound_journey {answer : Message} {p : Place} (hl : s.lobby.Consistent)
    (hrun : s.run mvs = some s') (hp : s.Bound n answer p) :
    s'.Bound n answer (s.journey p mvs) := by
  induction mvs generalizing s p with
  | nil =>
    obtain rfl := Option.some.inj hrun
    exact hp
  | cons mv mvs ih =>
    obtain ⟨t, ht, hrun⟩ := run_cons.1 hrun
    rw [journey_cons ht]
    exact ih (hl.step (move_step ht)) hrun (bound_move hl ht hp)

theorem bound_of_pass {answer : Message} {socket : SocketId} (hl : s.lobby.Consistent)
    (hrun : s.run mvs = some s') (hds : s.duties = [.pass n m socket answer]) :
    s'.Bound n answer (s.journey (.ofDuties s.duties) mvs) := by
  have hdue : s.Bound n answer (.ofDuties s.duties) := by
    rw [hds]
    exact ⟨m, socket, by rw [hds]; rfl⟩
  exact bound_journey hl hrun hdue

end Server

end TileRace
