import TileRace.Proofs.Server.Disguise
import TileRace.Proofs.Server.Handling

namespace TileRace

namespace Inbound

def isProbe : Inbound → Bool
  | .ping | .pong => true
  | .data _ | .close => false

def isKeepalive : Inbound → Bool
  | .data xs => (Message.decode? xs).any (·.kind.isKeepalive)
  | f => f.isProbe

end Inbound

namespace Link

/-- There is no traffic on a connection since the last check, nor is any about to be read or
written. There may be pings of the client's, if it sends any. -/
structure Quiet (pings : Prop) (l : Link) : Prop where
  arriving : ∀ f ∈ l.arriving, f.isProbe ∨ f.isKeepalive ∧ pings
  offer : ∀ m, l.offer? = some m → m.kind.isKeepalive ∧ pings
  queue : l.queue = []
  wrote : l.wrote = false
  heard : l.heard = false

variable {pings : Prop} {l l' : Link} {now : Nat} {intake : Intake} {a : Act} {e : Option Event}

theorem Quiet.of_eq (h : l.Quiet pings) (ha : l'.arriving = l.arriving)
    (hr : l'.reader = l.reader) (hq : l'.queue = l.queue) (hw : l'.wrote = l.wrote)
    (hh : l'.heard = l.heard) : l'.Quiet pings where
  arriving := ha ▸ h.arriving
  offer := offer?_congr hr ▸ h.offer
  queue := hq.trans h.queue
  wrote := hw.trans h.wrote
  heard := hh.trans h.heard

theorem Quiet.arrives (h : l.Quiet pings) {xs : List Inbound} {r : Reader}
    (ha : ∀ f ∈ xs, f.isProbe ∨ f.isKeepalive ∧ pings)
    (ho : offer? { l with reader := r } = none) :
    Quiet pings { l with arriving := xs, reader := r } where
  arriving := ha
  offer m hm := by cases (ho.symm.trans hm : none = some m)
  queue := h.queue
  wrote := h.wrote
  heard := h.heard

theorem Quiet.append (h : l.Quiet pings) {fs : List Inbound} (hfs : ∀ f ∈ fs, f.isProbe) :
    ∀ f ∈ l.arriving ++ fs, f.isProbe ∨ f.isKeepalive ∧ pings :=
  List.forall_mem_append.2 ⟨h.arriving, fun f hf => .inl (hfs f hf)⟩

theorem Quiet.frame (h : l.Quiet pings) {pongs : List Inbound} (hpongs : ∀ f ∈ pongs, f = .pong)
    (ha : l'.arriving = l.arriving ++ pongs) (hr : l'.reader = l.reader) (hq : l'.queue = [])
    (hw : l'.wrote = l.wrote) (hh : l'.heard = l.heard) : l'.Quiet pings where
  arriving := ha ▸ h.append fun f hf => hpongs f hf ▸ rfl
  offer := offer?_congr hr ▸ h.offer
  queue := hq
  wrote := hw.trans h.wrote
  heard := hh.trans h.heard

theorem Stops.rest_subset {rest : List Inbound} {left : Bool} (h : l.Stops now intake a rest left) :
    rest ⊆ l.arriving := by
  cases h with
  | bad reader arriving | leaves reader arriving => exact arriving ▸ List.subset_cons_self _ _
  | told | cut | silent | shut => exact List.Subset.refl _

/-- Without traffic no act but the next check ends the quiet. -/
theorem Quiet.act (hl : l.Quiet pings) (ha : a ≠ .checkIdle)
    (h : l.act now intake a = some (l', e)) : l'.Quiet pings := by
  have hrest {f : Inbound} {rest : List Inbound} (hf : l.arriving = f :: rest) :
      (f.isProbe ∨ f.isKeepalive ∧ pings) ∧ ∀ f ∈ rest, f.isProbe ∨ f.isKeepalive ∧ pings :=
    List.forall_mem_cons.1 (hf ▸ hl.arriving)
  cases does_act h with
  | stops why =>
    have hnone : offer? { l with reader := .stopped } = none := rfl
    refine ⟨fun f hf => hl.arriving f (why.rest_subset hf), fun m hm => ?_, hl.queue, hl.wrote,
      hl.heard⟩
    cases (hnone.symm.trans hm : none = some m)
  | renews reader arriving => exact hl.arrives (hrest arriving).2 rfl
  | tells => exact hl.arrives hl.arriving rfl
  | hears reader arriving said =>
    obtain ⟨hdata, hrest⟩ := hrest arriving
    obtain ⟨hkeep, hpings⟩ := hdata.resolve_left Bool.false_ne_true
    rw [Inbound.isKeepalive, said, Option.any_some] at hkeep
    refine ⟨hrest, fun o ho => ?_, hl.queue, hl.wrote, ?_⟩
    · rw [← Option.some.inj ho]
      exact ⟨hkeep, hpings⟩
    · dsimp only
      rw [hl.heard, hkeep]
      rfl
  | sends why ships =>
    obtain ⟨_, _, pongs, _, rfl, hpongs, -⟩ := ships.frame
    cases why with
    | answer reader arriving =>
      exact (hl.arrives (hrest arriving).2 rfl).frame hpongs rfl rfl hl.queue rfl rfl
    | write ready begins =>
      cases begins with
      | next queue => cases queue.symm.trans hl.queue
      | ping | hint => exact hl.frame hpongs rfl rfl hl.queue rfl rfl
    | flush => exact hl.frame hpongs rfl rfl hl.queue rfl rfl
  | closes why shuts =>
    obtain ⟨_, _, pongs, _, rfl, hpongs, -⟩ := shuts.frame
    cases why with
    | lost ready begins =>
      cases begins with
      | next queue => cases queue.symm.trans hl.queue
      | ping | hint => exact hl.frame hpongs rfl rfl rfl rfl rfl
    | told | done | idle | stuck => exact hl.frame hpongs rfl rfl rfl rfl rfl
  | stays => exact (ha rfl).elim
  | fails => exact ⟨hl.arriving, hl.offer, rfl, hl.wrote, hl.heard⟩
  | gives | reports => exact hl.of_eq rfl rfl rfl rfl rfl

theorem act_checkIdle (h : l.act now intake .checkIdle = some (l', e)) :
    l'.wrote = false ∧ l'.heard = false ∧ (l.wrote = false → l.heard = false → l'.Closing) := by
  cases does_act h with
  | stops why => cases why
  | sends why =>
    cases why with
    | write ready begins => cases begins
  | closes why shuts =>
    have hclosing := shuts.closing
    obtain ⟨_, _, _, _, rfl, -⟩ := shuts.frame
    cases why with
    | idle ready due quiet =>
      obtain ⟨hwrote, hheard⟩ := not_or.1 quiet
      exact ⟨by simpa using hwrote, by simpa using hheard, fun _ _ => hclosing⟩
    | lost ready begins => cases begins
  | stays ready due busy =>
    refine ⟨rfl, rfl, fun hwrote hheard => ?_⟩
    simp [hwrote, hheard] at busy

end Link

namespace Server

def ever (p : Server → Move → Server → Bool) (s : Server) : List Move → Bool
  | [] => false
  | mv :: mvs => match s.move mv with
    | some s' => p s mv s' || s'.ever p mvs
    | none => false

def hears (k : SocketId) (s : Server) (mv : Move) (_ : Server) : Bool :=
  mv = .act .hear && (s.events.head?.bind Event.request?).any (·.socket = some k)

/-- The lobby takes up something that the connection did not ask for, and has to send it something
then. -/
def stirs (k : SocketId) (s : Server) (mv : Move) (s' : Server) : Bool :=
  mv.takesUp && !s.hears k mv s' && s'.duties.any (·.socket = k)

/-- Nothing that the client of a line said, or that was meant for it, is still on its way. -/
structure Settled (s : Server) (i : Nat) (l : Link) : Prop where
  link : s.link? i = some l
  arriving : ∀ f ∈ l.arriving, f.isProbe
  offer : l.offer? = none
  queue : l.queue = []
  events : ∀ m, .inbound m ∈ s.events → m.socket ≠ some l.socket
  duties : ∀ d ∈ s.duties, d.socket ≠ l.socket

def Signed (s : Server) : Prop :=
  ∀ i l, s.link? i = some l → ∀ m, l.offer? = some m → m.socket = some l.socket

/-- There is no traffic on a connection, and nothing that would lead to some is on its way, but for
pings of the client's. -/
structure Hushed (s : Server) (i : Nat) (k : SocketId) (pings : Prop) : Prop where
  link : ∃ l, s.link? i = some l ∧ l.socket = k ∧ l.Quiet pings
  events : ∀ m, .inbound m ∈ s.events → m.socket = some k → m.kind.isKeepalive ∧ pings
  duties : ∀ d ∈ s.duties, d.socket ≠ k

variable {s s' t u : Server} {mv : Move} {mvs : List Move} {i : Nat} {l l' : Link} {k : SocketId}
  {pings : Prop}

theorem ever_cons {p : Server → Move → Server → Bool} (h : s.move mv = some s') :
    s.ever p (mv :: mvs) = (p s mv s' || s'.ever p mvs) := by
  rw [ever, h]

theorem hears_eq_true (h : s.hears k mv s') : ∃ m, .inbound m ∈ s.events ∧ m.socket = some k := by
  obtain ⟨-, h⟩ := Bool.and_eq_true_iff.1 h
  obtain ⟨m, hm, hk⟩ := (Option.any_eq_true _ _).1 h
  obtain ⟨e, he, hm⟩ := Option.bind_eq_some_iff.1 hm
  cases e with
  | inbound m' =>
    obtain rfl := Option.some.inj hm
    exact ⟨m', List.mem_of_mem_head? he, of_decide_eq_true hk⟩
  | closed => cases hm

theorem Signed.move (hs : s.Signed) (h : s.move mv = some s') : s'.Signed := by
  intro i l' hl' m hm
  have hold := hs i
  have hb := (turns_move h).befalls i
  rw [hl'] at hb
  generalize s.link? i = o at hold hb
  cases hb with
  | outside houtside =>
    rw [houtside.socket]
    exact hold _ rfl m (Link.offer?_congr houtside.reader ▸ hm)
  | acts move hact =>
    rw [(Link.identity_act hact).socket]
    cases Link.reads_act hact with
    | read act before after =>
      obtain ⟨o, -, rfl⟩ := Option.map_eq_some_iff.1 (after.symm.trans hm)
      rfl
    | offered act before after | stopped act after => cases after.symm.trans hm
    | kept read offer stop same => exact hold _ rfl m (same.symm.trans hm)
  | opened => cases hm

theorem signed_run {s₀ : Server} (h₀ : s₀.Fresh) (hrun : s₀.run mvs = some s) : s.Signed :=
  run_induction (fun hs h => hs.move h) (fun i l hl => by simp [h₀.link?] at hl) hrun

theorem offered_of_event {m : Message} (hlisted : s.Listed) (hsigned : s.Signed)
    (hl : s.link? i = some l) (h : s.move mv = some s') (hm : .inbound m ∈ s'.events)
    (hk : m.socket = some l.socket) : .inbound m ∈ s.events ∨ l.offer? = some m := by
  by_cases hear : mv = .act .hear
  · subst hear
    obtain ⟨e, he, -⟩ := hear_move h
    exact .inl (he ▸ List.mem_cons_of_mem _ hm)
  by_cases stop : mv = .act .stop
  · subst stop
    rw [(stop_move h).1] at hm
    cases hm
  obtain ⟨e, he, hnew⟩ := events_grow h hear stop
  rw [he] at hm
  refine (List.mem_append.1 hm).imp_right fun hm => ?_
  obtain ⟨j, hj, -⟩ := hnew m (Option.mem_toList.1 hm)
  obtain ⟨l₀, hl₀, ho⟩ := Option.bind_eq_some_iff.1 hj
  have hsocket : l₀.socket = l.socket := Option.some.inj ((hsigned j l₀ hl₀ m ho).symm.trans hk)
  obtain rfl := hlisted.distinct hl₀ hl hsocket
  obtain rfl := Option.some.inj (hl₀.symm.trans hl)
  exact ho

theorem Hushed.link_move (hs : s.Hushed i k pings) (h : s.move mv = some s')
    (tick : mv ≠ .act (.line i .checkIdle))
    (hsent : ∀ f, mv = .send i f → f.isProbe ∨ f.isKeepalive ∧ pings) :
    ∃ l, s'.link? i = some l ∧ l.socket = k ∧ l.Quiet pings := by
  obtain ⟨l, hl, hk, hquiet⟩ := hs.link
  by_cases hline : ∃ a, mv = .act (.line i a)
  · obtain ⟨a, rfl⟩ := hline
    obtain ⟨l₀, l', e, hl₀, ha, hl', -⟩ := line_move h
    obtain rfl := Option.some.inj (hl₀.symm.trans hl)
    exact ⟨l', hl', (Link.identity_act ha).socket.trans hk, hquiet.act (by simpa using tick) ha⟩
  · obtain ⟨l', hl', houtside⟩ := outside_move hl h (not_exists.1 hline)
    cases houtside with
    | kept => exact ⟨l, hl', hk, hquiet⟩
    | dropped | muted | looked | cancelled =>
      exact ⟨_, hl', hk, hquiet.of_eq rfl rfl rfl rfl rfl⟩
    | sipped | unmuted =>
      refine ⟨_, hl', hk, hquiet.frame (fun f hf => ?_) rfl rfl hquiet.queue rfl rfl⟩
      exact Client.eq_pong_of_mem_answers hf
    | sent f move =>
      refine ⟨_, hl', ?_⟩
      rw [Link.send]
      split
      · exact ⟨hk, hquiet⟩
      · refine ⟨hk, fun g hg => ?_, hquiet.offer, hquiet.queue, hquiet.wrote, hquiet.heard⟩
        obtain hg | hg := List.mem_append.1 hg
        · exact hquiet.arriving g hg
        · rw [List.mem_singleton.1 hg]
          exact hsent f move
    | queued move due socket =>
      exact (hs.duties _ (due ▸ List.mem_cons_self) (socket.trans hk)).elim

theorem Hushed.duties_move (hs : s.Hushed i k pings) (hc : s.lobby.Consistent)
    (h : s.move mv = some s') (hstirs : s.stirs k mv s' = false)
    (hhears : pings → s.hears k mv s' = false) : ∀ d ∈ s'.duties, d.socket ≠ k := by
  cases htakes : mv.takesUp with
  | false =>
    obtain ⟨-, hsame⟩ | ⟨d, -, hds, -⟩ := effect_move hc h htakes
    · rw [hsame]
      exact hs.duties
    · exact fun d' hd' => hs.duties d' (hds ▸ List.mem_cons_of_mem _ hd')
  | true =>
    have hdeaf : s.hears k mv s' = false := by
      refine Bool.eq_false_iff.2 fun hhear => ?_
      obtain ⟨m, hm, hk⟩ := hears_eq_true hhear
      exact absurd hhear (Bool.eq_false_iff.1 (hhears (hs.events m hm hk).2))
    rw [stirs, htakes, hdeaf] at hstirs
    simpa using hstirs

theorem Hushed.move (hs : s.Hushed i k pings) (hc : s.lobby.Consistent) (hlisted : s.Listed)
    (hsigned : s.Signed) (h : s.move mv = some s') (tick : mv ≠ .act (.line i .checkIdle))
    (hsent : ∀ f, mv = .send i f → f.isProbe ∨ f.isKeepalive ∧ pings)
    (hstirs : s.stirs k mv s' = false) (hhears : pings → s.hears k mv s' = false) :
    s'.Hushed i k pings where
  link := hs.link_move h tick hsent
  duties := hs.duties_move hc h hstirs hhears
  events m hm hk := by
    obtain ⟨l, hl, rfl, hquiet⟩ := hs.link
    obtain hm | ho := offered_of_event hlisted hsigned hl h hm hk
    · exact hs.events m hm hk
    · exact hquiet.offer m ho

theorem hushed_run {s₀ : Server} {before : List Move} (h₀ : s₀.Fresh)
    (hs : s₀.run before = some s) (hhushed : s.Hushed i k pings) (hrun : s.run mvs = some u)
    (hperiod : .act (.line i .checkIdle) ∉ mvs)
    (hsent : ∀ f, .send i f ∈ mvs → f.isProbe ∨ f.isKeepalive ∧ pings)
    (hstirs : s.ever (stirs k) mvs = false) (hhears : pings → s.ever (hears k) mvs = false) :
    u.Hushed i k pings := by
  induction mvs generalizing s before with
  | nil =>
    obtain rfl := Option.some.inj hrun
    exact hhushed
  | cons mv mvs ih =>
    obtain ⟨t, ht, hrun⟩ := run_cons.1 hrun
    simp only [ever_cons ht, Bool.or_eq_false_iff] at hstirs hhears
    obtain ⟨htick, hperiod⟩ := List.ne_and_not_mem_of_not_mem_cons hperiod
    have hnext : s₀.run (before ++ [mv]) = some t := by
      rw [run_append, hs]
      exact run_single ht
    refine ih hnext ?_ hrun hperiod (fun f hf => hsent f (List.mem_cons_of_mem _ hf)) hstirs.2
      fun hp => (hhears hp).2
    exact hhushed.move (consistent_run h₀.consistent hs) (listed_run h₀ hs).2 (signed_run h₀ hs) ht
      (Ne.symm htick) (fun f hf => hsent f (hf ▸ List.mem_cons_self)) hstirs.1
      fun hp => (hhears hp).1

/-- A connection is closed at a check, if since the last one its client only sent keepalives and the
lobby had nothing to send to it for the sake of others. The lobby answers the keepalives that are
messages, and so it must not have taken up any of these. -/
theorem keepalives_close {s₀ : Server} {before : List Move} {u' : Server} (h₀ : s₀.Fresh)
    (hbefore : s₀.run before = some s) (hfirst : s.move (.act (.line i .checkIdle)) = some t)
    (hsettled : t.Settled i l) (hrun : t.run mvs = some u)
    (hperiod : .act (.line i .checkIdle) ∉ mvs) (hsent : ∀ f, .send i f ∈ mvs → f.isKeepalive)
    (hothers : t.ever (stirs l.socket) mvs = false)
    (hpings : (∀ f, .send i f ∈ mvs → f.isProbe) ∨ t.ever (hears l.socket) mvs = false)
    (hsecond : u.move (.act (.line i .checkIdle)) = some u') :
    ∃ l', u'.link? i = some l' ∧ l'.Closing := by
  obtain ⟨l₀, l₁, e₁, -, ha, hl₁, -⟩ := line_move hfirst
  obtain rfl := Option.some.inj (hl₁.symm.trans hsettled.link)
  obtain ⟨hwrote, hheard, -⟩ := Link.act_checkIdle ha
  have ht : s₀.run (before ++ [.act (.line i .checkIdle)]) = some t := by
    rw [run_append, hbefore]
    exact run_single hfirst
  have hhushed : u.Hushed i l₁.socket (∃ f, .send i f ∈ mvs ∧ ¬ f.isProbe) := by
    refine hushed_run h₀ ht ?_ hrun hperiod (fun f hf => ?_) hothers fun ⟨f, hf, hprobe⟩ => ?_
    · refine ⟨⟨l₁, hl₁, rfl, fun f hf => .inl (hsettled.arriving f hf), fun m hm => ?_,
        hsettled.queue, hwrote, hheard⟩, fun m hm hk => (hsettled.events m hm hk).elim,
        hsettled.duties⟩
      cases hsettled.offer.symm.trans hm
    · exact (Classical.em _).imp_right fun hprobe => ⟨hsent f hf, f, hf, hprobe⟩
    · exact hpings.resolve_left fun hprobes => hprobe (hprobes f hf)
  obtain ⟨l₂, hl₂, -, hquiet⟩ := hhushed.link
  obtain ⟨l₃, l', e', hl₃, ha', hl', -⟩ := line_move hsecond
  obtain rfl := Option.some.inj (hl₃.symm.trans hl₂)
  exact ⟨l', hl', (Link.act_checkIdle ha').2.2 hquiet.wrote hquiet.heard⟩

def brisk : Server := { vacant with timing := { idle := Time.second } }

theorem fresh_brisk : brisk.Fresh := ⟨rfl, rfl, rfl, rfl, rfl, rfl, rfl, rfl, rfl, rfl⟩

def waiting : List Move :=
  [.connect "ann", .act .enroll, .act .duty, .act (.line 0 .writeNext), .wait Time.second]

def probing : List Move := [.send 0 .ping, .act (.line 0 .readFrame), .wait Time.second]

theorem Settled.of_nil (hl : s.link? i = some l) (ha : l.arriving = []) (ho : l.offer? = none)
    (hq : l.queue = []) (he : s.events = []) (hd : s.duties = []) : s.Settled i l where
  link := hl
  arriving := by simp [ha]
  offer := ho
  queue := hq
  events := by simp [he]
  duties := by simp [hd]

theorem keepalives_close_probing : ∃ s t u u' l l', brisk.Fresh ∧ brisk.run waiting = some s ∧
    s.move (.act (.line 0 .checkIdle)) = some t ∧ t.Settled 0 l ∧ t.run probing = some u ∧
    .act (.line 0 .checkIdle) ∉ probing ∧ (∀ f, .send 0 f ∈ probing → f.isProbe) ∧
    t.ever (stirs l.socket) probing = false ∧ u.move (.act (.line 0 .checkIdle)) = some u' ∧
    u'.link? 0 = some l' ∧ l'.Closing := by
  have hperiod : .act (.line 0 .checkIdle) ∉ probing := by decide
  have hprobes : ∀ f, .send 0 f ∈ probing → f.isProbe := by simp [probing, Inbound.isProbe]
  have hbefore : brisk.run waiting = some _ := rfl
  obtain ⟨l', hl', hclosing⟩ := keepalives_close fresh_brisk hbefore rfl
    (.of_nil rfl rfl rfl rfl rfl rfl) (rfl : run _ probing = some _) hperiod
    (by simp [probing, Inbound.isKeepalive, Inbound.isProbe]) rfl (.inl hprobes) rfl
  exact ⟨_, _, _, _, _, l', fresh_brisk, hbefore, rfl, .of_nil rfl rfl rfl rfl rfl rfl, rfl,
    hperiod, hprobes, rfl, rfl, hl', hclosing⟩

def hinting : List Move :=
  say 0 "[15]" ++ [.act .duty, .act (.line 0 .writeNext), .wait Time.second]

/-- The answer to a keepalive keeps the connection open. -/
theorem answer_keeps_open : ∃ s t u u' l l', brisk.Fresh ∧ brisk.run waiting = some s ∧
    s.move (.act (.line 0 .checkIdle)) = some t ∧ t.Settled 0 l ∧ t.run hinting = some u ∧
    .act (.line 0 .checkIdle) ∉ hinting ∧ (∀ f, .send 0 f ∈ hinting → f.isKeepalive) ∧
    t.ever (stirs l.socket) hinting = false ∧ u.move (.act (.line 0 .checkIdle)) = some u' ∧
    u'.link? 0 = some l' ∧ ¬ l'.Closing ∧ l'.writer = .ready ∧ l'.cancelled = false := by
  refine ⟨_, _, _, _, _, _, fresh_brisk, rfl, rfl, .of_nil rfl rfl rfl rfl rfl rfl, rfl,
    by decide, fun f hf => ?_, rfl, rfl, rfl, fun h => absurd h.cancelled Bool.false_ne_true, rfl,
    rfl⟩
  have hf : f = .data (Text.symbolsOf "[15]") := by simpa [hinting, say, write] using hf
  rw [hf]
  decide

end Server

end TileRace
