import Mathlib.Order.Bounds.Defs
import TileRace.Proofs.Connection.Serving

namespace TileRace

namespace Link

/-- Nobody stops the connection from outside: the client reads, and says what can be understood. -/
def Move.responsive : Move → Bool
  | .act _ | .queue _ | .look | .wait _ => true
  | .send f => f.legible
  | .hangUp | .cancel | .drop | .mute | .unmute | .sip _ => false

theorem mem_all (a : Act) : a ∈ Act.all := by
  cases a <;> simp [Act.all]

end Link

namespace Trace

def due (r : Trace) : Bool := Link.Act.all.any fun a => (r.link.act r.now .accepting a).isSome

def allows (r : Trace) : Link.Move → Bool
  | .wait time => !r.due && r.link.deadlines.all (r.now + time ≤ ·)
  | _ => true

/-- All timers of a run fire exactly when they are due. -/
def punctual (r : Trace) : List Link.Move → Bool
  | [] => true
  | mv :: mvs => r.allows mv && match r.step mv with
    | some r' => r'.punctual mvs
    | none => false

def Quiet (r : Trace) (start idle k : Nat) : Prop :=
  ∀ time ∈ r.traffic, ¬(start + (k - 1) * idle ≤ time ∧ time < start + k * idle)

/-- The `k`-th period is the first without traffic. -/
def FirstQuiet (r : Trace) (start idle k : Nat) : Prop :=
  IsLeast {j | 1 ≤ j ∧ r.Quiet start idle j} k

def Untold (r : Trace) : Prop := ∀ time name socket, (time, .closed name socket) ∉ r.events

/-- What can be done at one time comes to an end, and then time can pass. -/
def Settles (r : Trace) : Prop := ∃ (acts : List Link.Act) (r' : Trace),
  r.run (acts.map .act) = some r' ∧ r'.due = false ∧ ∀ d ∈ r'.link.deadlines, r'.now < d

/-- A connection that is closed at the end of its first period without traffic, the `k`-th one, and
that is neither closed nor told to be closed at any other time. -/
structure Lives (r : Trace) (socket : SocketId) (name : String) (t : Timing) (start k : Nat) :
    Prop where
  first : r.FirstQuiet start t.idle k
  stays : r.now < start + k * t.idle →
    r.link.cancelled = false ∧ r.link.writer = .ready ∧ r.link.reader ≠ .stopped
  ends : start + k * t.idle < r.now ∨ (start + k * t.idle = r.now ∧ r.due = false) →
    (start + k * t.idle, .closed name socket) ∈ r.events
  only : ∀ time name socket, (time, .closed name socket) ∈ r.events → time = start + k * t.idle

/-- An open connection after its `n`-th check. -/
structure Open (r : Trace) (socket : SocketId) (name : String) (t : Timing) (start n : Nat) :
    Prop where
  own : r.link.socket = socket ∧ r.link.name = name
  timing : r.link.timing = t
  intact : r.link.Intact
  timely : r.link.Timely start r.now
  unreported : r.link.reported = false
  untold : r.Untold
  next : r.link.nextIdle = start + (n + 1) * t.idle
  since : start + n * t.idle ≤ r.now
  past : ∀ time ∈ r.traffic, time ≤ r.now
  busy : r.link.wrote ∨ r.link.heard ↔ ∃ time ∈ r.traffic, start + n * t.idle ≤ time
  before : ∀ k, 1 ≤ k → k ≤ n → ¬ r.Quiet start t.idle k

structure Ended (r : Trace) (socket : SocketId) (name : String) (t : Timing) (start k : Nat) :
    Prop where
  own : r.link.socket = socket ∧ r.link.name = name
  timing : r.link.timing = t
  shut : r.link.Shut
  first : r.FirstQuiet start t.idle k
  unreported : r.link.reported = false → r.now = start + k * t.idle ∧ r.Untold ∧
    ∀ d, r.link.reader = .reading d → r.now < d
  told : r.link.reported → start + k * t.idle ≤ r.now ∧
    (start + k * t.idle, .closed name socket) ∈ r.events ∧
    ∀ time name socket, (time, .closed name socket) ∈ r.events → time = start + k * t.idle

variable {r r' : Trace} {mv : Link.Move} {mvs : List Link.Move} {a : Link.Act} {e : Option Event}
  {socket : SocketId} {name : String} {t : Timing} {start k n : Nat} {l : Link}

theorem due_of_act (h : (r.link.act r.now .accepting a).isSome) : r.due :=
  List.any_eq_true.2 ⟨a, Link.mem_all a, h⟩

theorem act_of_not_due (h : r.due = false) (a : Link.Act) :
    r.link.act r.now .accepting a = none := by
  by_contra hsome
  exact Bool.eq_false_iff.1 h (due_of_act (Option.isSome_iff_ne_none.2 hsome))

theorem Quiet.of_subset {idle : Nat} (h : r'.Quiet start idle k) (hsub : r.traffic ⊆ r'.traffic) :
    r.Quiet start idle k := fun time htime => h time (hsub htime)

theorem traffic_step (h : r.step mv = some r') : r.traffic ⊆ r'.traffic := by
  cases makes_step h with
  | acts => exact List.subset_append_left _ _
  | outside ne ho => exact ho.traffic ▸ List.Subset.refl _

theorem traffic_run (hrun : r.run mvs = some r') : r.traffic ⊆ r'.traffic :=
  run_induction (P := fun q => r.traffic ⊆ q.traffic)
    (fun hsub hstep => List.Subset.trans hsub (traffic_step hstep)) (List.Subset.refl _) hrun

theorem now_step (h : r.step mv = some r') : r.now ≤ r'.now := by
  cases makes_step h with
  | acts => exact Nat.le_refl _
  | outside ne ho => exact ho.now

theorem now_run (hrun : r.run mvs = some r') : r.now ≤ r'.now :=
  run_induction (P := fun q => r.now ≤ q.now) (fun hle h => Nat.le_trans hle (now_step h))
    (Nat.le_refl _) hrun

theorem busy_serves {now : Nat} {l l' : Link} (hs : l.Serves now a l' e) (ha : a ≠ .checkIdle) :
    l'.wrote ∨ l'.heard ↔ (l.wrote ∨ l.heard) ∨ l.busy a := by
  cases hs with
  | stays => exact (ha rfl).elim
  | hears reader arriving said =>
    simp only [Link.busy, Link.reading?, reader, arriving, said, Option.any_some, Bool.or_eq_true]
    rw [or_assoc]
  | answers reader arriving | answered reader arriving =>
    simp [Link.busy, Link.reading?, reader, arriving]
  | writes queue =>
    simp only [Link.busy, queue, List.head?_cons, Option.any_some, Bool.or_eq_true]
    rw [or_right_comm]
  | tells | asks | hints => simp [Link.busy]

theorem Untold.append (h : r.Untold) (he : ∀ name socket, e ≠ some (.closed name socket))
    (hevents : r'.events = r.events ++ (e.map (r.now, ·)).toList) : r'.Untold := by
  intro time name socket hmem
  rw [hevents] at hmem
  obtain hmem | hmem := List.mem_append.1 hmem
  · exact h time name socket hmem
  · obtain ⟨e', rfl, he'⟩ := Option.map_eq_some_iff.1 (Option.mem_toList.1 hmem)
    exact he name socket (by rw [(Prod.mk.inj he').2])

theorem no_traffic_since {idle : Nat} (hpast : ∀ time ∈ r.traffic, time ≤ start + (n + 1) * idle)
    (hoff : ∀ time ∈ r.traffic, ∀ j, time ≠ start + (j + 1) * idle) :
    ¬∃ time ∈ r.traffic, start + (n + 1) * idle ≤ time := by
  rintro ⟨time, htime, hle⟩
  exact hoff time htime n (Nat.le_antisymm (hpast time htime) hle)

theorem Open.serves (h : r.Open socket name t start n)
    (hs : r.link.Serves r.now a l e) (ha : a ≠ .checkIdle) (hlink : r'.link = l)
    (hnow : r'.now = r.now) (hevents : r'.events = r.events ++ (e.map (r.now, ·)).toList)
    (htraffic : r'.traffic = r.traffic ++ if r.link.busy a then [r.now] else []) :
    r'.Open socket name t start n := by
  subst hlink
  obtain ⟨hsocket, hname, htiming, hreported, hnext, hquiet⟩ := hs.frame
  have hmem (time : Nat) : time ∈ r'.traffic ↔ time ∈ r.traffic ∨ r.link.busy a ∧ time = r.now := by
    rw [htraffic, List.mem_append]
    cases r.link.busy a <;> simp
  refine ⟨⟨hsocket.trans h.own.1, hname.trans h.own.2⟩, htiming.trans h.timing,
    hs.intact h.intact, ?_, hreported.trans h.unreported, h.untold.append hquiet hevents,
    (hnext ha).trans h.next, hnow ▸ h.since, fun time htime => ?_, ?_, fun k h₁ hk hq => ?_⟩
  · rw [hnow]
    exact hs.timely h.timely
  · rw [hnow]
    obtain htime | ⟨-, rfl⟩ := (hmem time).1 htime
    · exact h.past time htime
    · exact Nat.le_refl _
  · rw [busy_serves hs ha, h.busy]
    constructor
    · rintro (⟨time, htime, hle⟩ | hbusy)
      · exact ⟨time, (hmem time).2 (.inl htime), hle⟩
      · exact ⟨r.now, (hmem _).2 (.inr ⟨hbusy, rfl⟩), h.since⟩
    · rintro ⟨time, htime, hle⟩
      obtain htime | ⟨hbusy, -⟩ := (hmem time).1 htime
      · exact .inl ⟨time, htime, hle⟩
      · exact .inr hbusy
  · exact h.before k h₁ hk (hq.of_subset fun time htime => (hmem time).2 (.inl htime))

theorem Open.now_eq (h : r.Open socket name t start n) (hdue : r.link.nextIdle ≤ r.now) :
    r.now = start + (n + 1) * t.idle :=
  (Nat.le_antisymm h.timely.idle hdue).trans h.next

theorem Open.firstQuiet (h : r.Open socket name t start n)
    (hquiet : ¬(r.link.wrote ∨ r.link.heard)) : r.FirstQuiet start t.idle (n + 1) := by
  refine ⟨⟨Nat.le_add_left 1 n, fun time htime hin => ?_⟩, fun j hj => ?_⟩
  · exact hquiet (h.busy.2 ⟨time, htime, hin.1⟩)
  · by_contra hlt
    exact h.before j hj.1 (Nat.le_of_lt_succ (Nat.not_le.1 hlt)) hj.2

theorem Open.noisy (h : r.Open socket name t start n) (hbusy : r.link.wrote ∨ r.link.heard)
    (hoff : ∀ time ∈ r.traffic, ∀ j, time ≠ start + (j + 1) * t.idle) :
    ∀ k, 1 ≤ k → k ≤ n + 1 → ¬r.Quiet start t.idle k := by
  intro k h₁ hk
  obtain hk | rfl := Nat.le_succ_iff.1 hk
  · exact h.before k h₁ hk
  · intro hquiet
    obtain ⟨time, htime, hle⟩ := h.busy.1 hbusy
    have hend : time ≤ start + (n + 1) * t.idle :=
      Nat.le_trans (h.past time htime) (h.next ▸ h.timely.idle)
    -- What happens at the very time of a check may count for either period, and does not occur.
    exact hquiet time htime ⟨hle, Nat.lt_of_le_of_ne hend (hoff time htime n)⟩

theorem Open.stays (h : r.Open socket name t start n)
    (hdue : r.link.nextIdle ≤ r.now) (hbusy : r.link.wrote ∨ r.link.heard)
    (hlink : r'.link = { r.link with
      nextIdle := r.link.nextIdle + r.link.timing.idle
      wrote := false
      heard := false })
    (hnow : r'.now = r.now) (hevents : r'.events = r.events) (htraffic : r'.traffic = r.traffic)
    (hoff : ∀ time ∈ r.traffic, ∀ j, time ≠ start + (j + 1) * t.idle) :
    r'.Open socket name t start (n + 1) := by
  have hserves := Link.Serves.stays hdue hbusy
  rw [← hlink] at hserves
  have hend := h.now_eq hdue
  have hpast : ∀ time ∈ r.traffic, time ≤ r.now := h.past
  constructor
  case own => rw [hlink]; exact h.own
  case timing => rw [hlink]; exact h.timing
  case intact => exact hserves.intact h.intact
  case timely =>
    rw [hnow]
    exact hserves.timely h.timely
  case unreported => rw [hlink]; exact h.unreported
  case untold => rw [Untold, hevents]; exact h.untold
  case next =>
    rw [hlink]
    change r.link.nextIdle + r.link.timing.idle = _
    rw [h.next, h.timing, Nat.succ_mul (n + 1), Nat.add_assoc]
  case since => exact Nat.le_of_eq (hnow.trans hend).symm
  case past => rwa [hnow, htraffic]
  case busy =>
    rw [hlink, htraffic]
    exact iff_of_false (by simp) (no_traffic_since (hend ▸ hpast) hoff)
  case before =>
    intro k h₁ hk hq
    exact h.noisy hbusy hoff k h₁ hk (hq.of_subset fun _ hx => htraffic ▸ hx)

theorem Open.closes (h : r.Open socket name t start n) (hdue : r.link.nextIdle ≤ r.now)
    (hquiet : ¬(r.link.wrote ∨ r.link.heard))
    (hshuts : Link.Shuts r.now
      { r.link with nextIdle := r.link.nextIdle + r.link.timing.idle } r'.link)
    (hnow : r'.now = r.now) (hevents : r'.events = r.events) (htraffic : r'.traffic = r.traffic) :
    r'.Ended socket name t start (n + 1) := by
  have hintact := h.intact.checked (r.link.nextIdle + r.link.timing.idle)
  have hshut := hintact.shut h.unreported hshuts
  have hlink := hintact.shuts hshuts
  have hreported : r'.link.reported = false := by rw [hlink]; exact h.unreported
  constructor
  case own => rw [hlink]; exact h.own
  case timing => rw [hlink]; exact h.timing
  case shut => exact hshut
  case first => simpa only [FirstQuiet, Quiet, htraffic] using h.firstQuiet hquiet
  case unreported =>
    intro _
    rw [hnow, Untold, hevents, hlink]
    exact ⟨h.now_eq hdue, h.untold, fun d hr => (h.timely.reading d hr).1⟩
  case told => exact fun hover => absurd (hreported.symm.trans hover) Bool.false_ne_true

theorem Open.act (h : r.Open socket name t start n) (hlasts : t.Lasts start r.now)
    (hstep : r.step (.act a) = some r')
    (hoff : ∀ time ∈ r'.traffic, ∀ j, time ≠ start + (j + 1) * t.idle) :
    (∃ n, r'.Open socket name t start n) ∨ ∃ k, r'.Ended socket name t start k := by
  have hsub := traffic_step hstep
  obtain ⟨l, e, hact, rfl⟩ := step_act hstep
  obtain hs | ⟨rfl, hdue, hquiet, rfl, hshuts⟩ :=
    h.intact.serves h.timely (h.timing.symm ▸ hlasts) hact
  · by_cases ha : a = .checkIdle
    · subst ha
      cases hs with
      | stays hdue hbusy =>
        refine .inl ⟨n + 1, h.stays hdue hbusy rfl rfl ?_ ?_ fun time htime => ?_⟩
        · exact List.append_nil _
        · exact List.append_nil _
        · exact hoff time (hsub htime)
    · exact .inl ⟨n, h.serves hs ha rfl rfl rfl rfl⟩
  · refine .inr ⟨n + 1, h.closes hdue hquiet hshuts rfl ?_ ?_⟩
    · exact List.append_nil _
    · exact List.append_nil _

theorem Open.outside (h : r.Open socket name t start n) (ho : r.Outside r')
    (hintact : r'.link.Intact) (htimely : r'.link.Timely start r'.now)
    (hnext : r'.link.nextIdle = r.link.nextIdle)
    (hflags : r'.link.wrote = r.link.wrote ∧ r'.link.heard = r.link.heard) :
    r'.Open socket name t start n where
  own := ⟨ho.identity.socket.trans h.own.1, ho.identity.name.trans h.own.2⟩
  timing := ho.identity.timing.trans h.timing
  intact := hintact
  timely := htimely
  unreported := ho.reported.trans h.unreported
  untold time name socket := ho.events ▸ h.untold time name socket
  next := hnext.trans h.next
  since := Nat.le_trans h.since ho.now
  past time htime := Nat.le_trans (h.past time (ho.traffic ▸ htime)) ho.now
  busy := by
    rw [hflags.1, hflags.2, ho.traffic]
    exact h.busy
  before k h₁ hk hq := h.before k h₁ hk (hq.of_subset fun _ hx => ho.traffic ▸ hx)

theorem Open.send (h : r.Open socket name t start n) {f : Inbound} (hf : f.legible)
    (hstep : r.step (.send f) = some r') : r'.Open socket name t start n := by
  have ho := outside_step hstep (by simp)
  obtain ⟨-, hstep⟩ := Option.ite_none_left_eq_some.1 hstep
  cases hstep
  have hsend : r.link.send f = { r.link with
      arriving := r.link.arriving ++ [f]
      client := { r.link.client with left := f = .close } } := by
    rw [Link.send, if_neg (by simp [h.intact.left])]
  have hstays : f ≠ .close := by
    rintro rfl
    cases hf
  rw [hsend] at ho ⊢
  have hi := h.intact
  have ht := h.timely
  refine h.outside ho ?_ ?_ rfl ⟨rfl, rfl⟩
  · refine ⟨hi.cut, hi.peerClosed, hi.cancelled, hi.hungUp, hi.writer, hi.pending, hi.reader,
      hi.muted, decide_eq_false hstays, hi.finished, fun g hg => ?_⟩
    obtain hg | hg := List.mem_append.1 hg
    · exact hi.arriving g hg
    · rwa [List.mem_singleton.1 hg]
  · exact ⟨ht.since, ht.periods, fun d hr => ⟨(ht.reading d hr).1, by simp⟩, ht.ping, ht.hint,
      ht.idle, ht.ticks⟩

theorem Open.undisturbed (h : r.Open socket name t start n) (ho : r.Outside r')
    {queue : List Message} {unread : List Frame}
    (hlink : r'.link = { r.link with queue, client := { r.link.client with unread } })
    (hnow : r'.now = r.now) : r'.Open socket name t start n := by
  have hi := h.intact
  have ht := h.timely
  refine h.outside ho ?_ ?_ ?_ ?_
  all_goals rw [hlink]
  · exact ⟨hi.cut, hi.peerClosed, hi.cancelled, hi.hungUp, hi.writer, hi.pending, hi.reader,
      hi.muted, hi.left, hi.finished, hi.arriving⟩
  · rw [hnow]
    exact ⟨ht.since, ht.periods, ht.reading, ht.ping, ht.hint, ht.idle, ht.ticks⟩
  · exact ⟨rfl, rfl⟩

theorem Open.wait (h : r.Open socket name t start n) {time : Nat}
    (hlasts : t.Lasts start r'.now) (hallowed : r.allows (.wait time))
    (hstep : r.step (.wait time) = some r') : r'.Open socket name t start n := by
  have ho := outside_step hstep (by simp)
  cases hstep
  obtain ⟨hdue, hdeadlines⟩ := Bool.and_eq_true_iff.1 hallowed
  have hnone := act_of_not_due (by simpa using hdue)
  refine h.outside ho h.intact ?_ rfl ⟨rfl, rfl⟩
  exact h.timely.wait h.intact (h.timing.symm ▸ hlasts) hnone
    fun d hd => by simpa using List.all_eq_true.1 hdeadlines d hd

theorem Open.step (h : r.Open socket name t start n) (hlasts : t.Lasts start r'.now)
    (hallowed : r.allows mv) (hclient : mv.responsive) (hstep : r.step mv = some r')
    (hoff : ∀ time ∈ r'.traffic, ∀ j, time ≠ start + (j + 1) * t.idle) :
    (∃ n, r'.Open socket name t start n) ∨ ∃ k, r'.Ended socket name t start k := by
  cases mv with
  | act a => exact h.act (hlasts.mono (now_step hstep)) hstep hoff
  | send f => exact .inl ⟨n, h.send hclient hstep⟩
  | wait time => exact .inl ⟨n, h.wait hlasts hallowed hstep⟩
  | queue m =>
    have ho := outside_step hstep (by simp)
    obtain ⟨-, hstep⟩ := Option.ite_none_right_eq_some.1 hstep
    cases hstep
    exact .inl ⟨n, h.undisturbed ho rfl rfl⟩
  | look =>
    have ho := outside_step hstep (by simp)
    cases hstep
    exact .inl ⟨n, h.undisturbed ho rfl rfl⟩
  | hangUp | cancel | drop | mute | unmute | sip => cases hclient

theorem due_of_shut (h : r.link.Shut) (hreported : r.link.reported = false) : r.due := by
  by_cases hr : r.link.reader = .stopped
  · exact due_of_act (a := .report) (by simp [Link.act, hr, h.writer, hreported])
  · exact due_of_act (a := .readStop) (by simp [Link.act, hr, h.cancelled])

theorem Ended.act (h : r.Ended socket name t start k) (hpositive : 0 < t.read)
    (hstep : r.step (.act a) = some r')
    (hoff : ∀ time ∈ r'.traffic, ∀ j, time ≠ start + (j + 1) * t.idle) :
    r'.Ended socket name t start k := by
  obtain ⟨l, e, hact, rfl⟩ := step_act hstep
  have hreported := h.shut.unreported_of_act hact
  obtain ⟨hnow, huntold, hreading⟩ := h.unreported hreported
  have hsame := Link.identity_act hact
  have hquiet : r.link.busy a = false := by
    by_contra hbusy
    obtain ⟨j, rfl⟩ := Nat.exists_eq_add_of_le' h.first.1.1
    have hbusy : r.link.busy a := by simpa using hbusy
    exact hoff r.now (List.mem_append.2 (.inr (by simp [hbusy]))) j hnow
  simp only [hquiet, Bool.false_eq_true, if_false, List.append_nil]
  refine ⟨⟨hsame.socket.trans h.own.1, hsame.name.trans h.own.2⟩, hsame.timing.trans h.timing,
    h.shut.act hact, h.first, fun hopen => ⟨hnow, ?_, ?_⟩, fun hover => ?_⟩
  · obtain ⟨-, hnone⟩ | ⟨-, -, -, rfl, -⟩ := Link.told_act hact
    · exact huntold.append hnone rfl
    · cases hopen
  · exact Link.reading_act (h.timing.symm ▸ hpositive) hreading hact
  · obtain ⟨hopen, -⟩ | ⟨-, -, -, -, rfl, -⟩ := Link.told_act hact
    · exact absurd (hopen.symm.trans hover) (by simp [hreported])
    · rw [if_pos rfl, h.own.1, h.own.2, hnow]
      refine ⟨Nat.le_refl _, List.mem_append.2 (.inr (List.mem_singleton_self _)), ?_⟩
      intro time name socket hmem
      obtain hmem | hmem := List.mem_append.1 hmem
      · exact (huntold time name socket hmem).elim
      · exact (Prod.mk.inj (List.mem_singleton.1 hmem)).1

theorem Ended.outside (h : r.Ended socket name t start k) (ho : r.Outside r')
    (hshut : r'.link.Shut) (hnow : r.link.reported = false → r'.now = r.now) :
    r'.Ended socket name t start k where
  own := ⟨ho.identity.socket.trans h.own.1, ho.identity.name.trans h.own.2⟩
  timing := ho.identity.timing.trans h.timing
  shut := hshut
  first := by simpa only [FirstQuiet, Quiet, ho.traffic] using h.first
  unreported hopen := by
    rw [ho.reported] at hopen
    rw [hnow hopen, Untold, ho.events, ho.reader]
    exact h.unreported hopen
  told hover := by
    rw [ho.events]
    exact (h.told (ho.reported ▸ hover)).imp_left fun hend => Nat.le_trans hend ho.now

theorem Ended.step (h : r.Ended socket name t start k) (hpositive : 0 < t.read)
    (hallowed : r.allows mv) (hclient : mv.responsive) (hstep : r.step mv = some r')
    (hoff : ∀ time ∈ r'.traffic, ∀ j, time ≠ start + (j + 1) * t.idle) :
    r'.Ended socket name t start k := by
  have hs := h.shut
  cases mv with
  | act a => exact h.act hpositive hstep hoff
  | send f =>
    obtain ⟨hgone, -⟩ := Option.ite_none_left_eq_some.1 hstep
    exact (hgone (by simp [Link.gone, hs.finished])).elim
  | queue m =>
    obtain ⟨haccepting, -⟩ := Option.ite_none_right_eq_some.1 hstep
    exact absurd haccepting.1 (by simp [hs.accepting])
  | look =>
    have ho := outside_step hstep (by simp)
    cases hstep
    refine h.outside ho ?_ fun _ => rfl
    exact ⟨hs.cancelled, hs.writer, hs.pending, hs.accepting, hs.muted, hs.finished, hs.told⟩
  | wait time =>
    have ho := outside_step hstep (by simp)
    cases hstep
    refine h.outside ho hs fun hopen => ?_
    obtain ⟨hdue, -⟩ := Bool.and_eq_true_iff.1 hallowed
    exact absurd (due_of_shut hs hopen) (by simpa using hdue)
  | hangUp | cancel | drop | mute | unmute | sip => cases hclient

def Goes (r : Trace) (socket : SocketId) (name : String) (t : Timing) (start : Nat) : Prop :=
  (∃ n, r.Open socket name t start n) ∨ ∃ k, r.Ended socket name t start k

theorem Open.ne_timeout (h : r.Open socket name t start n) (hlasts : t.Lasts start r.now)
    (hact : r.link.act r.now .accepting a = some (l, e)) :
    a ≠ .readTimeout ∧ a ≠ .writeTimeout := by
  obtain hs | ⟨rfl, -⟩ := h.intact.serves h.timely (h.timing.symm ▸ hlasts) hact
  · cases hs <;> simp
  · simp

theorem Ended.ne_timeout (h : r.Ended socket name t start k)
    (hact : r.link.act r.now .accepting a = some (l, e)) :
    a ≠ .readTimeout ∧ a ≠ .writeTimeout := by
  obtain ⟨-, -, hreading⟩ := h.unreported (h.shut.unreported_of_act hact)
  refine ⟨?_, ?_⟩ <;> rintro rfl <;> simp only [Link.act] at hact
  · split at hact
    · rename_i d hr
      obtain ⟨hd, -⟩ := Option.ite_none_right_eq_some.1 hact
      exact Nat.not_le.2 (hreading d hr) hd
    · cases hact
  · simp [h.shut.writer] at hact

theorem Goes.ne_timeout (h : r.Goes socket name t start) (hlasts : t.Lasts start r.now)
    (hstep : r.step mv = some r') : mv ≠ .act .readTimeout ∧ mv ≠ .act .writeTimeout := by
  cases makes_step hstep with
  | @acts a _ _ act =>
    have hne : a ≠ .readTimeout ∧ a ≠ .writeTimeout := by
      obtain ⟨n, h⟩ | ⟨k, h⟩ := h
      · exact h.ne_timeout hlasts act
      · exact h.ne_timeout act
    simpa using hne
  | outside ne => exact ⟨ne _, ne _⟩

theorem Goes.step (h : r.Goes socket name t start) (hvalid : t.validate = .ok ())
    (hlasts : t.Lasts start r'.now) (hallowed : r.allows mv) (hclient : mv.responsive)
    (hstep : r.step mv = some r')
    (hoff : ∀ time ∈ r'.traffic, ∀ j, time ≠ start + (j + 1) * t.idle) :
    r'.Goes socket name t start := by
  obtain ⟨hpositive, -⟩ := Timing.validate_eq_ok hvalid
  obtain ⟨n, h⟩ | ⟨k, h⟩ := h
  · exact h.step hlasts hallowed hclient hstep hoff
  · exact .inr ⟨k, h.step (hpositive .read) hallowed hclient hstep hoff⟩

theorem Goes.run (h : r.Goes socket name t start) (hvalid : t.validate = .ok ())
    (hlasts : t.Lasts start r'.now) (hrun : r.run mvs = some r') (hpunctual : r.punctual mvs)
    (hclient : ∀ mv ∈ mvs, mv.responsive)
    (hoff : ∀ time ∈ r'.traffic, ∀ j, time ≠ start + (j + 1) * t.idle) :
    r'.Goes socket name t start ∧ ∀ mv ∈ mvs, mv ≠ .act .readTimeout ∧ mv ≠ .act .writeTimeout := by
  induction mvs generalizing r with
  | nil =>
    obtain rfl := Option.some.inj hrun
    exact ⟨h, by simp⟩
  | cons mv mvs ih =>
    obtain ⟨q, hq, hrest⟩ := run_cons.1 hrun
    obtain ⟨hallowed, hpunctual⟩ := Bool.and_eq_true_iff.1 hpunctual
    rw [hq] at hpunctual
    obtain ⟨hmv, hclient⟩ := List.forall_mem_cons.1 hclient
    have hnow := hlasts.mono (now_run hrest)
    have hgoes := h.step hvalid hnow hallowed hmv hq fun time htime =>
      hoff time (traffic_run hrest htime)
    obtain ⟨hend, hnever⟩ := ih hgoes hrest hpunctual hclient
    have hne := h.ne_timeout (hnow.mono (now_step hq)) hq
    exact ⟨hend, List.forall_mem_cons.2 ⟨hne, hnever⟩⟩

theorem open_start (hvalid : t.validate = .ok ()) {now : Nat} (hlasts : t.Lasts now now)
    (socket : SocketId) (name : String) (room : Nat) :
    (Trace.start socket name t room now).Open socket name t now 0 := by
  obtain ⟨-, hperiods⟩ := Timing.validate_eq_ok hvalid
  have hwaits := t.awaits hperiods (Nat.le_refl now) (Nat.le_refl _)
  have hready : (Link.start socket name t room now).writer = .ready := by
    have hall : ∀ p ∈ [Period.ping, .hint, .idle], now + t.period p ≤ Time.last := fun p hp => by
      simpa using hlasts.writer p hp 0 (by simp)
    simp only [List.forall_mem_cons, Timing.period] at hall
    simp [Link.start, hall]
  refine ⟨⟨rfl, rfl⟩, rfl, ?_, ?_, rfl, fun _ _ _ h => (List.not_mem_nil h).elim, ?_, ?_,
    fun _ h => (List.not_mem_nil h).elim, ?_, fun k h₁ hk => by omega⟩
  · exact ⟨rfl, rfl, rfl, rfl, hready, rfl, by simp [Trace.start, Link.start], rfl, rfl, rfl,
      fun _ h => (List.not_mem_nil h).elim⟩
  · refine ⟨Nat.le_refl _, hperiods, fun d hd => ?_, ⟨Nat.le_add_right _ _, Nat.le_refl _⟩,
      Nat.le_add_right _ _, Nat.le_add_right _ _, ⟨1, ?_⟩, ⟨1, ?_⟩, ⟨1, ?_⟩⟩
    · rw [← Reader.reading.inj hd]
      exact ⟨hwaits.1, fun _ => hwaits.2⟩
    all_goals rw [Nat.one_mul]; rfl
  · simp [Trace.start, Link.start]
  · simp [Trace.start]
  · exact iff_of_false (by simp [Trace.start, Link.start]) (by simp [Trace.start])

theorem Open.lives (h : r.Open socket name t start n) (hvalid : t.validate = .ok ())
    (hoff : ∀ time ∈ r.traffic, ∀ j, time ≠ start + (j + 1) * t.idle) :
    ∃ k, r.Lives socket name t start k := by
  obtain ⟨hpositive, -⟩ := Timing.validate_eq_ok hvalid
  have hend : r.now ≤ start + (n + 1) * t.idle := h.next ▸ h.timely.idle
  have hstays : r.link.cancelled = false ∧ r.link.writer = .ready ∧ r.link.reader ≠ .stopped :=
    ⟨h.intact.cancelled, h.intact.writer, h.intact.reader⟩
  have honly {k : Nat} : ∀ time name socket, (time, .closed name socket) ∈ r.events →
      time = start + k * t.idle :=
    fun time name socket hmem => (h.untold time name socket hmem).elim
  by_cases hbusy : r.link.wrote ∨ r.link.heard
  · have hlt : start + (n + 1) * t.idle < start + (n + 2) * t.idle :=
      Nat.add_lt_add_left (Nat.mul_lt_mul_of_pos_right (Nat.lt_succ_self _) (hpositive .idle)) _
    refine ⟨n + 2, ⟨⟨Nat.le_add_left 1 _, fun time htime hin => ?_⟩, fun j hj => ?_⟩,
      fun _ => hstays, ?_, honly⟩
    · exact no_traffic_since (fun time htime => Nat.le_trans (h.past time htime) hend) hoff
        ⟨time, htime, hin.1⟩
    · by_contra hj'
      exact h.noisy hbusy hoff j hj.1 (Nat.le_of_lt_succ (Nat.not_le.1 hj')) hj.2
    · rintro (hpast | ⟨hnow, -⟩)
      · omega
      · omega
  · refine ⟨n + 1, h.firstQuiet hbusy, fun _ => hstays, ?_, honly⟩
    rintro (hpast | ⟨hnow, hdue⟩)
    · omega
    · have hcheck : (r.link.act r.now .accepting .checkIdle).isSome := by
        simp [Link.act, h.intact.writer, h.next, hnow]
      exact absurd (due_of_act hcheck) (by simp [hdue])

theorem Ended.lives (h : r.Ended socket name t start k) : r.Lives socket name t start k := by
  cases hreported : r.link.reported with
  | false =>
    obtain ⟨hnow, huntold, -⟩ := h.unreported hreported
    refine ⟨h.first, fun hearly => ?_, ?_, fun time name socket hmem => ?_⟩
    · exact absurd hnow (Nat.ne_of_lt hearly)
    · rintro (hpast | ⟨-, hdue⟩)
      · exact absurd hnow (Nat.ne_of_gt hpast)
      · exact absurd (due_of_shut h.shut hreported) (by simp [hdue])
    · exact (huntold time name socket hmem).elim
  | true =>
    obtain ⟨hle, htold, honly⟩ := h.told hreported
    exact ⟨h.first, fun hearly => (Nat.not_le.2 hearly hle).elim, fun _ => htold, honly⟩

theorem Settles.of_act {q : Trace} (hstep : r.step (.act a) = some q) (h : q.Settles) :
    r.Settles := by
  obtain ⟨acts, r', hrun, hend⟩ := h
  exact ⟨a :: acts, r', run_cons.2 ⟨q, hstep, hrun⟩, hend⟩

theorem step_of_act (hact : r.link.act r.now .accepting a = some (l, e)) :
    ∃ q, r.step (.act a) = some q ∧ q.link = l ∧ q.now = r.now := by
  simp [step, hact]

theorem not_due (h : ∀ a, r.link.act r.now .accepting a = none) : r.due = false :=
  List.any_eq_false.2 fun a _ => by simp [h a]

theorem settles_of_shut (h : r.link.Shut) : r.Settles := by
  have htold {r : Trace} (h : r.link.Shut) (hreported : r.link.reported) : r.Settles := by
    have hr := h.told hreported
    refine ⟨[], r, rfl, not_due fun a => ?_, ?_⟩
    · exact h.over_act hreported r.now a
    · simp [Link.deadlines, hr, h.writer]
  have hstopped {r : Trace} (h : r.link.Shut) (hr : r.link.reader = .stopped) : r.Settles := by
    cases hreported : r.link.reported with
    | true => exact htold h hreported
    | false =>
      have hact : r.link.act r.now .accepting .report =
          some ({ r.link with reported := true }, some (.closed r.link.name r.link.socket)) := by
        simp [Link.act, hr, h.writer, hreported]
      obtain ⟨q, hq, hl, -⟩ := step_of_act hact
      exact .of_act hq (htold (hl ▸ h.act hact) (by rw [hl]))
  by_cases hr : r.link.reader = .stopped
  · exact hstopped h hr
  · have hact : r.link.act r.now .accepting .readStop =
        some ({ r.link with reader := .stopped }.letGo, none) := if_pos ⟨h.cancelled, hr⟩
    obtain ⟨client, pending, heq, -⟩ := Link.letGo_eq { r.link with reader := .stopped }
    obtain ⟨q, hq, hl, -⟩ := step_of_act hact
    exact .of_act hq (hstopped (hl ▸ h.act hact) (by rw [hl, heq]))

/-- Every act of an open connection leaves it less to do, until it is closed. -/
theorem settles_of_intact (hi : r.link.Intact) (ht : r.link.Timely start r.now)
    (hreported : r.link.reported = false) (hpositive : ∀ p, 0 < r.link.timing.period p)
    (hlasts : r.link.timing.Lasts start r.now) : r.Settles := by
  -- on what is left to do now: no act adds anything, as every timer is set to a later time
  induction hn : r.link.work r.now using Nat.strong_induction_on generalizing r with
  | _ n ih =>
  cases hdue : r.due with
  | false => exact ⟨[], r, rfl, hdue, ht.lt_deadlines hi (act_of_not_due hdue)⟩
  | true =>
    obtain ⟨a, -, ha⟩ := List.any_eq_true.1 hdue
    obtain ⟨⟨l, e⟩, hact⟩ := Option.isSome_iff_exists.1 ha
    obtain ⟨q, hq, rfl, hnow⟩ := step_of_act hact
    refine Settles.of_act hq ?_
    obtain hs | ⟨-, -, -, -, hshuts⟩ := hi.serves ht hlasts hact
    · obtain ⟨-, -, htiming, hsame, -⟩ := hs.frame
      have hless : q.link.work q.now < n := hn ▸ hnow ▸ hs.work_lt hpositive ht
      refine ih _ hless (hs.intact hi) (hnow ▸ hs.timely ht) (hsame.trans hreported) ?_ ?_
        rfl
      all_goals rw [htiming]
      · exact hpositive
      · rwa [hnow]
    · have hchecked := hi.checked (r.link.nextIdle + r.link.timing.idle)
      exact settles_of_shut (hchecked.shut hreported hshuts)

theorem Goes.settles (h : r.Goes socket name t start) (hvalid : t.validate = .ok ())
    (hlasts : t.Lasts start r.now) : r.Settles := by
  obtain ⟨hpositive, -⟩ := Timing.validate_eq_ok hvalid
  obtain ⟨n, h⟩ | ⟨k, h⟩ := h
  · exact settles_of_intact h.intact h.timely h.unreported (h.timing.symm ▸ hpositive)
      (h.timing.symm ▸ hlasts)
  · exact settles_of_shut h.shut

/-- A connection whose writer never began to work. -/
structure Unwritten (r : Trace) : Prop where
  writer : r.link.writer = .stopped
  written : r.written = []

theorem Unwritten.step (h : r.Unwritten) (hstep : r.step mv = some r') :
    r'.Unwritten ∧ mv ≠ .act .checkIdle := by
  cases makes_step hstep with
  | @acts a _ _ hact =>
    have hnone : r.link.writes? a = none := by
      by_contra hwrites
      cases (ready_of_writes hact hwrites).symm.trans h.writer
    refine ⟨⟨Link.stopped_act hact h.writer, ?_⟩, ?_⟩
    · rw [hnone, h.written]
      rfl
    · rintro ⟨⟩
      cases (Option.ite_none_right_eq_some.1 hact).1.1.symm.trans h.writer
  | outside ne ho => exact ⟨⟨ho.writer.trans h.writer, ho.written.trans h.written⟩, ne _⟩

theorem Unwritten.run (h : r.Unwritten) (hrun : r.run mvs = some r') :
    r'.Unwritten ∧ .act .checkIdle ∉ mvs := by
  induction mvs generalizing r with
  | nil => exact ⟨Option.some.inj hrun ▸ h, List.not_mem_nil⟩
  | cons mv mvs ih =>
    obtain ⟨q, hq, hrun⟩ := run_cons.1 hrun
    obtain ⟨hnext, hmv⟩ := h.step hq
    obtain ⟨hend, hmvs⟩ := ih hnext hrun
    exact ⟨hend, List.not_mem_cons_of_ne_of_not_mem hmv.symm hmvs⟩

theorem unwritten_start {room now : Nat}
    (hend : ∃ p ∈ [Period.ping, .hint, .idle], Time.last < now + t.period p) :
    (Trace.start socket name t room now).Unwritten := by
  refine ⟨?_, rfl⟩
  obtain ⟨p, hp, hlt⟩ := hend
  have hfails : [t.ping, t.hint, t.idle].all (now + · ≤ Time.last) = false := by
    refine List.all_eq_false.2 ⟨t.period p, ?_, by simpa using hlt⟩
    simp only [List.mem_cons, List.not_mem_nil, or_false] at hp ⊢
    obtain rfl | rfl | rfl := hp <;> simp [Timing.period]
  simp [Trace.start, Link.start, hfails]

def brisk : Timing := { read := 3, write := 1, ping := 2, hint := 10, idle := 4 }

def silence : List Link.Move :=
  [.wait 1, .send (.data (Text.symbolsOf "[11]")), .act .readFrame, .act .offer, .wait 1,
   .act .sendPing, .act .readFrame, .wait 2, .act .sendPing, .act .readFrame, .act .checkIdle,
   .wait 2, .act .sendPing, .act .readFrame, .wait 2, .act .sendPing, .act .readFrame,
   .act .checkIdle, .act .readStop, .act .report]

end Trace

end TileRace
