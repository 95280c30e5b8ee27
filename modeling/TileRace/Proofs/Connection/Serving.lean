import TileRace.Proofs.Connection.Faithful

namespace TileRace

namespace Timing

/-- The clock does not count what the reader waits for, so that it waits for less, and does not send
a ping in this time. -/
structure Slow (t : Timing) (now : Nat) : Prop where
  read : Time.last < now + t.read
  ping : Time.age ≤ t.ping

/-- The clock lasts from some start until now: every timer of the writer that has run out was set
again, and the reader has not given up without a ping. -/
structure Lasts (t : Timing) (start now : Nat) : Prop where
  writer : ∀ p ∈ [Period.ping, .hint, .idle], ∀ k, start + k * t.period p ≤ now →
    start + (k + 1) * t.period p ≤ Time.last
  reader : t.Slow now → now < start + Time.age

variable {t : Timing} {start now now' : Nat}

theorem Slow.mono (h : t.Slow now) (hle : now ≤ now') : t.Slow now' :=
  ⟨Nat.lt_of_lt_of_le h.read (Nat.add_le_add_right hle _), h.ping⟩

theorem Lasts.mono (h : t.Lasts start now') (hle : now ≤ now') : t.Lasts start now where
  writer p hp k hk := h.writer p hp k (Nat.le_trans hk hle)
  reader hslow := Nat.lt_of_le_of_lt hle (h.reader (hslow.mono hle))

/-- The reader waits until after the next ping, if the clock counts what it waits for. -/
theorem awaits {next : Nat} (hperiods : t.ping < t.read) (hsince : start ≤ now)
    (hnext : next ≤ now + t.ping) : now < Time.due now now t.read ∧
      (next < Time.due now now t.read ∨
        t.Slow now ∧ start + Time.age ≤ Time.due now now t.read) := by
  refine ⟨Time.lt_due now (Nat.zero_lt_of_lt hperiods), ?_⟩
  rw [Time.due]
  split
  · omega
  · rename_i hread
    obtain hage | hage := Nat.lt_or_ge t.ping Time.age
    · omega
    · exact .inr ⟨⟨Nat.not_le.1 hread, hage⟩, Nat.add_le_add_right hsince _⟩

theorem validate_eq_ok (h : t.validate = .ok ()) : (∀ p, 0 < t.period p) ∧ t.ping < t.read := by
  rw [validate] at h
  split at h
  · cases h
  · rename_i hnone
    split at h
    · cases h
    · rename_i hping
      refine ⟨fun p => ?_, Nat.lt_of_not_le hping⟩
      have hpositive := List.find?_eq_none.1 hnone p (by cases p <;> simp)
      exact Nat.pos_of_ne_zero (by simpa using hpositive)

end Timing

namespace Link

/-- Nothing has stopped the connection, and its client reads and says what can be understood. -/
structure Intact (l : Link) : Prop where
  cut : l.cut = false
  peerClosed : l.peerClosed = false
  cancelled : l.cancelled = false
  hungUp : l.hungUp = false
  writer : l.writer = .ready
  pending : l.pending = []
  reader : l.reader ≠ .stopped
  muted : l.client.muted = false
  left : l.client.left = false
  finished : l.client.finished = false
  arriving : ∀ f ∈ l.arriving, f.legible

/-- `next` is one of the times at which a timer runs out that was set at some start. -/
def Tick (start period next : Nat) : Prop := ∃ k, next = start + k * period

/-- No timer has been missed since some start, and the next ping comes before the reader gives up,
if the clock counts what it waits for. -/
structure Timely (l : Link) (start now : Nat) : Prop where
  since : start ≤ now
  periods : l.timing.ping < l.timing.read
  reading : ∀ d, l.reader = .reading d → now < d ∧
    (l.arriving = [] → l.nextPing < d ∨ l.timing.Slow now ∧ start + Time.age ≤ d)
  ping : now ≤ l.nextPing ∧ l.nextPing ≤ now + l.timing.ping
  hint : now ≤ l.nextHint
  idle : now ≤ l.nextIdle
  ticks : Tick start l.timing.ping l.nextPing ∧ Tick start l.timing.hint l.nextHint ∧
    Tick start l.timing.idle l.nextIdle

/-- All that an intact connection does, as long as it goes on. -/
inductive Serves (now : Nat) (l : Link) : Act → Link → Option Event → Prop where
  | hears {d xs m rest} (reader : l.reader = .reading d) (arriving : l.arriving = .data xs :: rest)
    (said : Message.decode? xs = some m) : Serves now l .readFrame { l with
      arriving := rest
      reader := .offering (l.stamp m)
      heard := l.heard || !m.kind.isKeepalive } none
  | answers {d rest} (reader : l.reader = .reading d) (arriving : l.arriving = .ping :: rest) :
    Serves now l .readFrame { l with
      arriving := rest
      client := l.client.receive .pong
      reader := .reading (Time.due now now l.timing.read) } none
  | answered {d rest} (reader : l.reader = .reading d) (arriving : l.arriving = .pong :: rest) :
    Serves now l .readFrame { l with
      arriving := rest
      reader := .reading (Time.due now now l.timing.read) } none
  | tells {m} (reader : l.reader = .offering m) :
    Serves now l .offer { l with reader := .reading (Time.due now now l.timing.read) }
      (some (.inbound m))
  | writes {m rest} (queue : l.queue = m :: rest) : Serves now l .writeNext { l with
      queue := rest
      tracked := track l.tracked m
      wrote := l.wrote || !m.kind.isKeepalive
      client := l.client.receive (.message m) } none
  | asks (due : l.nextPing ≤ now) : Serves now l .sendPing { l with
      nextPing := l.nextPing + l.timing.ping
      client := l.client.receive .ping
      arriving := l.arriving ++ [.pong] } none
  | hints (due : l.nextHint ≤ now) : Serves now l .sendHint { l with
      nextHint := l.nextHint + l.timing.hint
      client := l.client.receive (.message (.ofKind .socketHttpPing)) } none
  | stays (due : l.nextIdle ≤ now) (busy : l.wrote ∨ l.heard) : Serves now l .checkIdle { l with
      nextIdle := l.nextIdle + l.timing.idle
      wrote := false
      heard := false } none

variable {l l' k : Link} {start now : Nat} {a : Act} {e : Option Event} {fs : List Frame}

theorem Tick.again {period next : Nat} (h : Tick start period next) :
    Tick start period (next + period) := by
  obtain ⟨k, rfl⟩ := h
  exact ⟨k + 1, by rw [Nat.succ_mul, Nat.add_assoc]⟩

/-- As long as the clock lasts, a timer that has run out can be set again. -/
theorem Tick.le_last {t : Timing} {next : Nat} {p : Period} (h : Tick start (t.period p) next)
    (hp : p ∈ [Period.ping, .hint, .idle]) (hlasts : t.Lasts start now) (hdue : next ≤ now) :
    next + t.period p ≤ Time.last := by
  obtain ⟨k, rfl⟩ := h
  have hlast := hlasts.writer p hp k hdue
  rwa [Nat.succ_mul, ← Nat.add_assoc] at hlast

theorem Ships.reads (h : k.Ships fs l') (hp : k.pending = []) (hm : k.client.muted = false) :
    l' = { k with
      client := fs.foldl Client.receive k.client
      arriving := k.arriving ++ k.client.answers fs
      writer := k.writer.done } := by
  cases h with
  | @mk sent pending client frames carries all =>
    obtain rfl := all hm
    rw [hp, List.map_nil, List.nil_append, List.append_nil] at frames
    subst frames
    cases carries with
    | held muted => cases hm.symm.trans muted
    | read => simp [hm, hp]

theorem Shuts.reads (h : k.Shuts now l') (hcut : k.cut = false) (hp : k.pending = [])
    (hm : k.client.muted = false) : l' = { k with
      cancelled := true
      accepting := false
      queue := []
      writer := .stopped
      client := k.client.receive .closed } := by
  cases h with
  | lost cut => cases hcut.symm.trans cut
  | said whole ships =>
    rw [ships.reads hp hm]
    simp [Client.answers, Writer.done]

/-- An intact connection goes on, or closes at a check. -/
theorem Intact.serves (h : l.Intact) (ht : l.Timely start now) (hlasts : l.timing.Lasts start now)
    (hact : l.act now .accepting a = some (l', e)) : l.Serves now a l' e ∨
      a = .checkIdle ∧ l.nextIdle ≤ now ∧ ¬(l.wrote ∨ l.heard) ∧ e = none ∧
        Shuts now { l with nextIdle := l.nextIdle + l.timing.idle } l' := by
  obtain ⟨hpings, hhints, hidles⟩ := ht.ticks
  have hping (hdue : l.nextPing ≤ now) : l.nextPing + l.timing.ping ≤ Time.last :=
    Tick.le_last (p := .ping) hpings (by simp) hlasts hdue
  have hhint (hdue : l.nextHint ≤ now) : l.nextHint + l.timing.hint ≤ Time.last :=
    Tick.le_last (p := .hint) hhints (by simp) hlasts hdue
  have hidle (hdue : l.nextIdle ≤ now) : l.nextIdle + l.timing.idle ≤ Time.last :=
    Tick.le_last (p := .idle) hidles (by simp) hlasts hdue
  have hlost : ¬(l.cut ∨ l.peerClosed) := by simp [h.cut, h.peerClosed]
  have harriving {f : Inbound} {rest : List Inbound} (ha : l.arriving = f :: rest) : f.legible :=
    h.arriving f (ha ▸ List.mem_cons_self)
  cases does_act hact with
  | stops why =>
    cases why with
    | told cancelled => cases h.cancelled.symm.trans cancelled
    | bad reader arriving bad =>
      have hlegible := harriving arriving
      rw [Inbound.legible, bad] at hlegible
      cases hlegible
    | leaves reader arriving => cases harriving arriving
    | cut reader arriving cut => cases h.cut.symm.trans cut
    -- A ping was sent and answered before the reader could give up.
    | silent reader late => exact absurd late (Nat.not_le.2 (ht.reading _ reader).1)
    | shut reader shut => cases shut
  | hears reader arriving said => exact .inl (.hears reader arriving said)
  | renews reader arriving probe =>
    obtain rfl | ⟨rfl, hcut⟩ := probe
    · exact .inl (.answered reader arriving)
    · cases h.cut.symm.trans hcut
  | tells reader => exact .inl (.tells reader)
  | sends why ships =>
    cases why with
    | answer reader arriving =>
      have hanswers : l.Serves now .readFrame _ _ := .answers reader arriving
      rw [ships.reads h.pending h.muted]
      exact .inl (by simpa [Client.answers, Writer.done, h.writer] using hanswers)
    | write ready begins =>
      cases begins with
      | next queue =>
        have hwrites : l.Serves now .writeNext _ _ := .writes queue
        rw [ships.reads h.pending h.muted]
        exact .inl (by simpa [Client.answers, Writer.done, h.writer] using hwrites)
      | ping due =>
        have hasks := Serves.asks due
        have hnext : Time.due now l.nextPing l.timing.ping = _ := Time.due_eq (hping due)
        rw [ships.reads h.pending h.muted]
        exact .inl (by simpa [Client.answers, Writer.done, h.writer, h.left, h.finished, hnext]
          using hasks)
      | hint due =>
        have hhints := Serves.hints due
        have hnext : Time.due now l.nextHint l.timing.hint = _ := Time.due_eq (hhint due)
        rw [ships.reads h.pending h.muted]
        exact .inl (by simpa [Client.answers, Writer.done, h.writer, hnext] using hhints)
    | flush whole waits => exact (waits h.pending).elim
  | closes why shuts =>
    cases why with
    | told ready cancelled => cases h.cancelled.symm.trans cancelled
    | done ready hungUp => cases h.hungUp.symm.trans hungUp
    | idle ready due quiet =>
      rw [Time.due_eq (hidle due)] at shuts
      exact .inr ⟨rfl, due, quiet, rfl, shuts⟩
    | stuck writing => cases h.writer.symm.trans writing
    | lost ready begins lost => exact (hlost lost).elim
  | stays ready due busy =>
    rw [Time.due_eq (hidle due)]
    exact .inl (.stays due busy)
  | fails ready overruns =>
    obtain ⟨⟨next, period⟩, hmem, hlate⟩ := List.any_eq_true.1 overruns
    obtain ⟨hdue, hlate⟩ := of_decide_eq_true hlate
    have hlast : next + period ≤ Time.last := by
      simp only [List.mem_cons, Prod.mk.injEq, List.not_mem_nil, or_false] at hmem
      obtain ⟨rfl, rfl⟩ | ⟨rfl, rfl⟩ | ⟨rfl, rfl⟩ := hmem
      · exact hping hdue
      · exact hhint hdue
      · exact hidle hdue
    exact absurd hlast (Nat.not_le.2 hlate)
  | gives closing => cases h.writer.symm.trans closing
  | reports ended => cases h.writer.symm.trans ended.2

theorem finished_receive {c : Client} {f : Frame} (h : c.finished = false) (hf : f ≠ .closed) :
    (c.receive f).finished = false ∧ (c.receive f).muted = c.muted ∧
      (c.receive f).left = c.left := by
  rw [Client.receive]
  split
  · exact ⟨h, rfl, rfl⟩
  · exact ⟨decide_eq_false hf, rfl, rfl⟩

theorem Intact.of_client (h : l.Intact) (hsame : l'.cut = l.cut ∧ l'.peerClosed = l.peerClosed ∧
      l'.cancelled = l.cancelled ∧ l'.hungUp = l.hungUp ∧ l'.writer = l.writer ∧
      l'.pending = l.pending) (hr : l'.reader ≠ .stopped)
    {f : Frame} (hf : f ≠ .closed) (hc : l'.client = l.client ∨ l'.client = l.client.receive f)
    (ha : ∀ f ∈ l'.arriving, f ∈ l.arriving ∨ f.legible) : l'.Intact := by
  obtain ⟨hcut, hpeer, hcancelled, hhung, hw, hp⟩ := hsame
  obtain ⟨hfinished, hmuted, hleft⟩ := finished_receive h.finished hf
  refine ⟨hcut.trans h.cut, hpeer.trans h.peerClosed, hcancelled.trans h.cancelled,
    hhung.trans h.hungUp, hw.trans h.writer, hp.trans h.pending, hr, ?_, ?_, ?_,
    fun f hf => (ha f hf).elim (h.arriving f) id⟩
  all_goals obtain hc | hc := hc <;> rw [hc]
  · exact h.muted
  · exact hmuted.trans h.muted
  · exact h.left
  · exact hleft.trans h.left
  · exact h.finished
  · exact hfinished

theorem Serves.intact (hs : l.Serves now a l' e) (h : l.Intact) : l'.Intact := by
  have hrest {f : Inbound} {rest : List Inbound} (ha : l.arriving = f :: rest) :
      ∀ g ∈ rest, g ∈ l.arriving ∨ g.legible :=
    fun g hg => .inl (ha ▸ List.mem_cons_of_mem f hg)
  have hkept : ∀ g ∈ l.arriving, g ∈ l.arriving ∨ g.legible := fun g hg => .inl hg
  have hping : Frame.ping ≠ .closed := by simp
  cases hs with
  | hears reader arriving =>
    exact h.of_client ⟨rfl, rfl, rfl, rfl, rfl, rfl⟩ (by simp) hping (.inl rfl) (hrest arriving)
  | answers reader arriving =>
    exact h.of_client ⟨rfl, rfl, rfl, rfl, rfl, rfl⟩ (by simp) (by simp) (.inr rfl) (hrest arriving)
  | answered reader arriving =>
    exact h.of_client ⟨rfl, rfl, rfl, rfl, rfl, rfl⟩ (by simp) hping (.inl rfl) (hrest arriving)
  | tells => exact h.of_client ⟨rfl, rfl, rfl, rfl, rfl, rfl⟩ (by simp) hping (.inl rfl) hkept
  | writes | hints =>
    exact h.of_client ⟨rfl, rfl, rfl, rfl, rfl, rfl⟩ h.reader (by simp) (.inr rfl) hkept
  | stays => exact h.of_client ⟨rfl, rfl, rfl, rfl, rfl, rfl⟩ h.reader hping (.inl rfl) hkept
  | asks =>
    refine h.of_client ⟨rfl, rfl, rfl, rfl, rfl, rfl⟩ h.reader hping (.inr rfl) fun g hg => ?_
    refine (List.mem_append.1 hg).imp_right fun hg => ?_
    rw [List.mem_singleton.1 hg]
    rfl

theorem Serves.timely (hs : l.Serves now a l' e) (h : l.Timely start now) :
    l'.Timely start now := by
  obtain ⟨hpings, hhints, hidles⟩ := h.ticks
  have hread : ∀ d, Reader.reading (Time.due now now l.timing.read) = .reading d →
      now < d ∧ (l.nextPing < d ∨ l.timing.Slow now ∧ start + Time.age ≤ d) := by
    rintro d hd
    exact Reader.reading.inj hd ▸ l.timing.awaits h.periods h.since h.ping.2
  cases hs with
  | hears => exact ⟨h.since, h.periods, by simp, h.ping, h.hint, h.idle, h.ticks⟩
  | answers | answered | tells =>
    exact ⟨h.since, h.periods, fun d hd => ⟨(hread d hd).1, fun _ => (hread d hd).2⟩, h.ping,
      h.hint, h.idle, h.ticks⟩
  | writes => exact ⟨h.since, h.periods, h.reading, h.ping, h.hint, h.idle, h.ticks⟩
  | asks due =>
    refine ⟨h.since, h.periods, fun d hd => ⟨(h.reading d hd).1, by simp⟩, ?_, h.hint, h.idle,
      hpings.again, hhints, hidles⟩
    have hping := h.ping.1
    dsimp only
    omega
  | hints due =>
    exact ⟨h.since, h.periods, h.reading, h.ping, Nat.le_add_right_of_le h.hint, h.idle, hpings,
      hhints.again, hidles⟩
  | stays due =>
    exact ⟨h.since, h.periods, h.reading, h.ping, h.hint, Nat.le_add_right_of_le h.idle, hpings,
      hhints, hidles.again⟩

theorem Serves.frame (hs : l.Serves now a l' e) : l'.socket = l.socket ∧ l'.name = l.name ∧
    l'.timing = l.timing ∧ l'.reported = l.reported ∧
    (a ≠ .checkIdle → l'.nextIdle = l.nextIdle) ∧
    ∀ name socket, e ≠ some (.closed name socket) := by
  cases hs with
  | stays => exact ⟨rfl, rfl, rfl, rfl, fun h => (h rfl).elim, by simp⟩
  | _ => exact ⟨rfl, rfl, rfl, rfl, fun _ => rfl, by simp⟩

theorem Timely.wait {time : Nat} (h : l.Timely start now) (hl : l.Intact)
    (hlasts : l.timing.Lasts start (now + time))
    (hnone : ∀ a, l.act now .accepting a = none) (hd : ∀ d ∈ l.deadlines, now + time ≤ d) :
    l.Timely start (now + time) := by
  have hready : l.nextPing ∈ l.deadlines ∧ l.nextHint ∈ l.deadlines ∧ l.nextIdle ∈ l.deadlines := by
    simp [deadlines, hl.writer]
  have hle : now ≤ now + time := Nat.le_add_right _ _
  refine ⟨Nat.le_trans h.since hle, h.periods, fun d hr => ?_, ⟨hd _ hready.1, ?_⟩, hd _ hready.2.1,
    hd _ hready.2.2, h.ticks⟩
  · have hread : l.arriving = [] := by
      cases ha : l.arriving with
      | nil => rfl
      | cons f rest =>
        have hsome := hnone .readFrame
        simp [act, hr, ha] at hsome
    obtain hlt | ⟨hslow, hage⟩ := (h.reading d hr).2 hread
    · exact ⟨Nat.lt_of_le_of_lt (hd _ hready.1) hlt, fun _ => .inl hlt⟩
    · have hslow := hslow.mono hle
      exact ⟨Nat.lt_of_lt_of_le (hlasts.reader hslow) hage, fun _ => .inr ⟨hslow, hage⟩⟩
  · have hping := h.ping.2
    omega

/-- When an intact connection has nothing to do, none of its timers has run out. -/
theorem Timely.lt_deadlines (h : l.Timely start now) (hl : l.Intact)
    (hnone : ∀ a, l.act now .accepting a = none) : ∀ d ∈ l.deadlines, now < d := by
  have hping : now < l.nextPing := by
    by_contra hdue
    have := hnone .sendPing
    simp [act, hl.writer, Nat.not_lt.1 hdue] at this
  have hhint : now < l.nextHint := by
    by_contra hdue
    have := hnone .sendHint
    simp [act, hl.writer, Nat.not_lt.1 hdue] at this
  have hidle : now < l.nextIdle := by
    by_contra hdue
    have := hnone .checkIdle
    simp [act, hl.writer, Nat.not_lt.1 hdue] at this
  intro d hd
  rw [deadlines, hl.writer] at hd
  obtain hd | hd := List.mem_append.1 hd
  · split at hd
    · rename_i d' hr
      rw [List.mem_singleton.1 hd]
      exact (h.reading d' hr).1
    · cases hd
  · simp only [List.mem_cons, List.not_mem_nil, or_false] at hd
    obtain rfl | rfl | rfl := hd
    · exact hping
    · exact hhint
    · exact hidle

/-- What an intact connection has to do before time can pass. A ping counts for the answer too. -/
def work (l : Link) (now : Nat) : Nat :=
  2 * l.arriving.length + l.offer?.toList.length + l.queue.length +
    (if l.nextPing ≤ now then 3 else 0) + (if l.nextHint ≤ now then 1 else 0) +
    (if l.nextIdle ≤ now then 1 else 0)

theorem Serves.work_lt (hs : l.Serves now a l' e) (hpositive : ∀ p, 0 < l.timing.period p)
    (h : l.Timely start now) : l'.work now < l.work now := by
  cases hs with
  | hears reader arriving =>
    simp only [work, offer?, reader, arriving, List.length_cons, Option.toList_some,
      Option.toList_none, List.length_nil]
    omega
  | answers reader arriving | answered reader arriving =>
    simp only [work, offer?, reader, arriving, List.length_cons]
    omega
  | tells reader =>
    simp only [work, offer?, reader, Option.toList_some, Option.toList_none, List.length_cons,
      List.length_nil]
    omega
  | writes queue =>
    simp only [work, offer?, queue, List.length_cons]
    omega
  | asks due =>
    have hpast : ¬ l.nextPing + l.timing.ping ≤ now := by
      have hping := hpositive .ping
      have hnow := h.ping.1
      simp only [Timing.period] at hping
      omega
    simp only [work, offer?, List.length_append, List.length_singleton, if_pos due, if_neg hpast]
    omega
  | hints due =>
    have hpast : ¬ l.nextHint + l.timing.hint ≤ now := by
      have hhint := hpositive .hint
      have hnow := h.hint
      simp only [Timing.period] at hhint
      omega
    simp only [work, offer?, if_pos due, if_neg hpast]
    omega
  | stays due =>
    have hpast : ¬ l.nextIdle + l.timing.idle ≤ now := by
      have hidle := hpositive .idle
      have hnow := h.idle
      simp only [Timing.period] at hidle
      omega
    simp only [work, offer?, if_pos due, if_neg hpast]
    omega

/-- The connection was closed, and its client has seen it. -/
structure Shut (l : Link) : Prop where
  cancelled : l.cancelled
  writer : l.writer = .stopped
  pending : l.pending = []
  accepting : l.accepting = false
  muted : l.client.muted = false
  finished : l.client.finished
  told : l.reported → l.reader = .stopped

theorem Intact.checked (h : l.Intact) (next : Nat) : Intact { l with nextIdle := next } :=
  ⟨h.cut, h.peerClosed, h.cancelled, h.hungUp, h.writer, h.pending, h.reader, h.muted, h.left,
    h.finished, h.arriving⟩

theorem Intact.shuts (h : l.Intact) (hs : l.Shuts now l') : l' = { l with
    cancelled := true
    accepting := false
    queue := []
    writer := .stopped
    client := l.client.receive .closed } :=
  hs.reads h.cut h.pending h.muted

theorem Intact.shut (h : l.Intact) (hreported : l.reported = false) (hs : l.Shuts now l') :
    l'.Shut := by
  have htold := hs.told h.muted
  have hmuted := hs.muted.trans h.muted
  obtain rfl := h.shuts hs
  exact ⟨rfl, rfl, h.pending, rfl, hmuted, htold, fun hover => by cases hreported.symm.trans hover⟩

theorem Shut.over_act (h : l.Shut) (hover : l.reported) (now : Nat) (a : Act) :
    l.act now .accepting a = none := by
  have horderly : l.Orderly := ⟨fun _ hs => (hs h.writer).elim, fun _ _ => h.pending⟩
  exact horderly.over_act (h.told hover) h.writer hover now .accepting a

theorem Shut.unreported_of_act (h : l.Shut) (hact : l.act now .accepting a = some (l', e)) :
    l.reported = false := by
  by_contra hover
  rw [h.over_act (by simpa using hover)] at hact
  cases hact

theorem Shut.act (h : l.Shut) (hact : l.act now .accepting a = some (l', e)) : l'.Shut := by
  have hreported := h.unreported_of_act hact
  have hopen {k : Link} (hk : k.reported = l.reported) : k.reported → k.reader = .stopped :=
    fun hover => by cases hreported.symm.trans (hk.symm.trans hover)
  have hready {d : Writer} (hw : l.writer = d) : d = .stopped := hw.symm.trans h.writer
  cases does_act hact with
  | stops why letsGo =>
    cases letsGo with
    | kept goes => exact (goes h.writer).elim
    | gone stopped carries =>
      obtain ⟨hmuted, -, -, hfinished⟩ := carries.keeps
      exact ⟨rfl, h.writer, rfl, h.accepting, hmuted.trans h.muted, hfinished h.finished,
        fun _ => rfl⟩
  | hears | renews | tells =>
    exact ⟨h.cancelled, h.writer, h.pending, h.accepting, h.muted, h.finished, hopen rfl⟩
  | sends why ships =>
    cases why with
    | answer reader arriving =>
      have hcarries : l.client.Carries [.pong] _ := .read h.muted
      obtain ⟨hmuted, -, -, hfinished⟩ := hcarries.keeps
      rw [ships.reads h.pending h.muted]
      exact ⟨h.cancelled, by rw [h.writer]; rfl, h.pending, h.accepting, hmuted.trans h.muted,
        hfinished h.finished, hopen rfl⟩
    | write ready => cases hready ready
    | flush whole waits => exact (waits h.pending).elim
  | closes why =>
    cases why with
    | told ready | done ready | idle ready | lost ready => cases hready ready
    | stuck writing => cases hready writing
  | stays ready | fails ready => cases hready ready
  | gives closing => cases hready closing
  | reports ended =>
    exact ⟨h.cancelled, h.writer, h.pending, h.accepting, h.muted, h.finished, fun _ => ended.1⟩

theorem reading_act (hpositive : 0 < l.timing.read) (h : ∀ d, l.reader = .reading d → now < d)
    (hact : l.act now .accepting a = some (l', e)) : ∀ d, l'.reader = .reading d → now < d := by
  have hrenewed {t : Nat} (ht : Reader.reading (Time.due now now l.timing.read) = .reading t) :
      now < t := by
    rw [← Reader.reading.inj ht]
    exact Time.lt_due _ hpositive
  intro d hd
  cases does_act hact with
  | stops | hears => cases hd
  | renews | tells => exact hrenewed hd
  | sends why ships =>
    obtain ⟨_, _, _, _, rfl, -⟩ := ships.frame
    cases why with
    | answer => exact hrenewed hd
    | write ready begins => cases begins <;> exact h d hd
    | flush => exact h d hd
  | closes why shuts =>
    obtain ⟨_, _, _, _, rfl, -⟩ := shuts.frame
    obtain ⟨_, _, _, _, _, _, rfl⟩ := why.frame
    exact h d hd
  | _ => exact h d hd

end Link

end TileRace
