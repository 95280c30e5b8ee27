import TileRace.Connection.Link

namespace TileRace

namespace Client

/-- What becomes of a client when frames are sent to it. One that does not read has them on the
way. -/
inductive Carries (c : Client) (fs : List Frame) : Client → Prop where
  | held {room} (muted : c.muted) : Carries c fs { c with room, transit := c.transit ++ fs }
  | read (reads : c.muted = false) : Carries c fs (fs.foldl receive c)

variable {c c' : Client} {f : Frame} {fs gs : List Frame} {n : Nat}

theorem receive_eq (c : Client) (f : Frame) : ∃ unread finished,
    c.receive f = { c with unread, finished } ∧ (c.finished → finished) := by
  rw [receive]
  split
  · exact ⟨_, _, rfl, id⟩
  · rename_i hf
    exact ⟨_, _, rfl, fun h => (hf h).elim⟩

theorem foldl_receive_eq (c : Client) (fs : List Frame) : ∃ unread finished,
    fs.foldl receive c = { c with unread, finished } ∧ (c.finished → finished) := by
  induction fs generalizing c with
  | nil => exact ⟨_, _, rfl, id⟩
  | cons f fs ih =>
    obtain ⟨unread, finished, hf, hfinished⟩ := receive_eq c f
    obtain ⟨unread', finished', hfs, hfinished'⟩ := ih (c.receive f)
    refine ⟨unread', finished', ?_, fun h => hfinished' ?_⟩
    · rw [List.foldl_cons, hfs, hf]
    · rw [hf]
      exact hfinished h

theorem sip_eq (c : Client) (n : Nat) : ∃ room unread finished,
    c.sip n = { c with room, transit := c.transit.drop n, unread, finished } ∧
      (c.finished → finished) := by
  obtain ⟨unread, finished, hsip, hfinished⟩ := foldl_receive_eq { c with
    transit := c.transit.drop n
    room := (c.transit.take n).foldl (fun room f => room + f.size) c.room } (c.transit.take n)
  exact ⟨_, unread, finished, hsip, hfinished⟩

theorem Carries.keeps (h : c.Carries fs c') : c'.muted = c.muted ∧ c'.left = c.left ∧
    c'.limit = c.limit ∧ (c.finished → c'.finished) := by
  cases h with
  | held muted => exact ⟨rfl, rfl, rfl, id⟩
  | read reads =>
    obtain ⟨unread, finished, hfs, hfinished⟩ := foldl_receive_eq c fs
    rw [hfs]
    exact ⟨rfl, rfl, rfl, hfinished⟩

theorem carries_carry (c : Client) (f : Frame) (n : Nat) : c.Carries [f] (c.carry f n) := by
  rw [carry]
  split
  · exact .held ‹_›
  · rename_i hreads
    exact .read (Bool.eq_false_iff.2 hreads)

theorem carries_nil (c : Client) : c.Carries [] c := by
  cases hm : c.muted with
  | false => exact .read hm
  | true =>
    have hheld : c.Carries [] { c with room := c.room, transit := c.transit ++ [] } := .held hm
    rwa [List.append_nil] at hheld

theorem Carries.trans {c'' : Client} (h : c.Carries fs c') (h' : c'.Carries gs c'') :
    c.Carries (fs ++ gs) c'' := by
  have hsame := h.keeps.1
  cases h with
  | held muted =>
    cases h' with
    | held => exact List.append_assoc .. ▸ .held muted
    | read reads => cases muted.symm.trans reads
  | read reads =>
    cases h' with
    | held muted => cases (hsame ▸ muted).symm.trans reads
    | read => exact List.foldl_append .. ▸ .read reads

/-- What there is space for is sent, in order. A client that reads is sent everything. -/
theorem carries_load (c : Client) (ps : List (Frame × Nat)) :
    ∃ sent, ps.map (·.1) = sent ++ (c.load ps).2.map (·.1) ∧ c.Carries sent (c.load ps).1 ∧
      (c.muted = false → (c.load ps).2 = []) := by
  induction ps generalizing c with
  | nil => exact ⟨[], rfl, carries_nil c, fun _ => rfl⟩
  | cons p ps ih =>
    obtain ⟨f, n⟩ := p
    rw [load]
    split
    · rename_i hstuck
      have hheld : c.Carries [] { c with room := 0, transit := c.transit ++ [] } := .held hstuck.1
      rw [List.append_nil] at hheld
      exact ⟨[], rfl, hheld, fun hm => by cases hm.symm.trans hstuck.1⟩
    · obtain ⟨sent, hsent, hcarries, hall⟩ := ih (c.carry f n)
      have hf := carries_carry c f n
      refine ⟨f :: sent, ?_, hf.trans hcarries, fun hm => hall (hf.keeps.1.trans hm)⟩
      rw [List.map_cons, hsent, List.cons_append]

theorem eq_pong_of_mem_answers {g : Inbound} (h : g ∈ c.answers fs) : g = .pong := by
  rw [answers] at h
  split at h
  · cases h
  · obtain ⟨_, -, rfl⟩ := List.mem_map.1 h
    rfl

end Client

/-- The writer has begun to close, or has stopped. -/
def Writer.over : Writer → Bool
  | .closing _ | .stopped => true
  | .ready | .writing _ => false

theorem Writer.over_done (w : Writer) : w.done.over = w.over := by
  cases w <;> rfl

namespace Link

/-- `l'` is `l` after as much as possible was sent of what is pending and of `fs`, which comes after
that. -/
inductive Ships (l : Link) (fs : List Frame) : Link → Prop where
  | mk {sent pending client} (frames : l.pending.map (·.1) ++ fs = sent ++ pending.map (·.1))
    (carries : l.client.Carries sent client) (all : l.client.muted = false → pending = []) :
    Ships l fs { l with
      client
      pending
      arriving := l.arriving ++ if l.client.muted then [] else l.client.answers sent
      writer := if pending.isEmpty then l.writer.done else l.writer }

/-- `l'` is `l` as it begins to close: the close frame is sent, or the connection is cut. -/
inductive Shuts (now : Nat) (l : Link) : Link → Prop where
  | lost {client} (cut : l.cut) (told : l.client.Carries [.closed] client) : Shuts now l { l with
      cancelled := true
      accepting := false
      queue := []
      pending := []
      writer := .stopped
      client }
  | said {l'} (whole : l.cut = false) (ships : Ships { l with
      cancelled := true
      accepting := false
      queue := []
      writer := .closing (Time.due now now l.timing.write) } [.closed] l') : Shuts now l l'

/-- What becomes of the client, and of what is pending, when one half of a connection stops. If the
other one has stopped the client sees the end. -/
inductive LetsGo (c : Client) (ps : List (Frame × Nat)) (other : Prop) :
    Client → List (Frame × Nat) → Prop where
  | gone {c'} (stopped : other) (carries : c.Carries [.closed] c') : LetsGo c ps other c' []
  | kept (goes : ¬other) : LetsGo c ps other c ps

/-- Why the reader stops, what it leaves unread, and whether the client has said that it leaves. -/
inductive Stops (now : Nat) (intake : Intake) (l : Link) : Act → List Inbound → Bool → Prop where
  | told (cancelled : l.cancelled) (reads : l.reader ≠ .stopped) :
    Stops now intake l .readStop l.arriving l.peerClosed
  | bad {d xs rest} (reader : l.reader = .reading d) (arriving : l.arriving = .data xs :: rest)
    (bad : Message.decode? xs = none) : Stops now intake l .readFrame rest l.peerClosed
  | leaves {d rest} (reader : l.reader = .reading d) (arriving : l.arriving = .close :: rest) :
    Stops now intake l .readFrame rest true
  | cut {d} (reader : l.reader = .reading d) (arriving : l.arriving = []) (cut : l.cut) :
    Stops now intake l .readEnd l.arriving l.peerClosed
  | silent {d} (reader : l.reader = .reading d) (late : d ≤ now) :
    Stops now intake l .readTimeout l.arriving l.peerClosed
  | shut {m} (reader : l.reader = .offering m) (shut : intake = .shut) :
    Stops now intake l .offer l.arriving l.peerClosed

inductive Begins (now : Nat) (l : Link) : Act → Frame → Link → Prop where
  | next {m rest} (queue : l.queue = m :: rest) : Begins now l .writeNext (.message m) { l with
      queue := rest
      tracked := track l.tracked m
      wrote := l.wrote || !m.kind.isKeepalive }
  | ping (due : l.nextPing ≤ now) : Begins now l .sendPing .ping { l with
      nextPing := Time.due now l.nextPing l.timing.ping }
  | hint (due : l.nextHint ≤ now) :
    Begins now l .sendHint (.message (.ofKind .socketHttpPing)) { l with
      nextHint := Time.due now l.nextHint l.timing.hint }

inductive Closes (now : Nat) (l : Link) : Act → Link → Prop where
  | told (ready : l.writer = .ready) (cancelled : l.cancelled) : Closes now l .writeStop l
  | done (ready : l.writer = .ready) (hungUp : l.hungUp) (queue : l.queue = []) :
    Closes now l .hangUp l
  | idle (ready : l.writer = .ready) (due : l.nextIdle ≤ now) (quiet : ¬(l.wrote ∨ l.heard)) :
    Closes now l .checkIdle { l with nextIdle := Time.due now l.nextIdle l.timing.idle }
  | stuck {d} (writing : l.writer = .writing d) (late : d ≤ now ∨ l.cut) :
    Closes now l .writeTimeout l
  | lost {a f k} (ready : l.writer = .ready) (begins : l.Begins now a f k)
    (lost : l.cut ∨ l.peerClosed) : Closes now l a k

inductive Sends (now : Nat) (l : Link) : Act → List Frame → Link → Prop where
  | answer {d rest} (reader : l.reader = .reading d) (arriving : l.arriving = .ping :: rest)
    (whole : l.cut = false) : Sends now l .readFrame [.pong] { l with
      arriving := rest
      reader := .reading (Time.due now now l.timing.read) }
  | write {a f k} (ready : l.writer = .ready) (begins : l.Begins now a f k)
    (whole : ¬(l.cut ∨ l.peerClosed)) :
    Sends now l a [f] { k with writer := .writing (Time.due now now k.timing.write) }
  | flush (whole : l.cut = false) (waits : l.pending ≠ [])
    (space : l.client.muted = false ∨ 0 < l.client.room) : Sends now l .flush [] l

/-- All that a connection can do, and what it tells the lobby. -/
inductive Does (now : Nat) (intake : Intake) (l : Link) : Act → Link → Option Event → Prop where
  | stops {a rest left client pending} (why : l.Stops now intake a rest left)
    (letsGo : LetsGo l.client l.pending (l.writer = .stopped) client pending) :
    Does now intake l a { l with
      reader := .stopped
      cancelled := true
      arriving := rest
      peerClosed := left
      client
      pending } none
  | hears {d xs m rest} (reader : l.reader = .reading d) (arriving : l.arriving = .data xs :: rest)
    (said : Message.decode? xs = some m) : Does now intake l .readFrame { l with
      arriving := rest
      reader := .offering (l.stamp m)
      heard := l.heard || !m.kind.isKeepalive } none
  | renews {d f rest} (reader : l.reader = .reading d) (arriving : l.arriving = f :: rest)
    (probe : f = .pong ∨ f = .ping ∧ l.cut) : Does now intake l .readFrame { l with
      arriving := rest
      reader := .reading (Time.due now now l.timing.read) } none
  | tells {m} (reader : l.reader = .offering m) (takes : intake = .accepting) :
    Does now intake l .offer { l with reader := .reading (Time.due now now l.timing.read) }
      (some (.inbound m))
  | sends {a fs k l'} (why : l.Sends now a fs k) (ships : k.Ships fs l') :
    Does now intake l a l' none
  | closes {a k l'} (why : l.Closes now a k) (shuts : k.Shuts now l') : Does now intake l a l' none
  | stays (ready : l.writer = .ready) (due : l.nextIdle ≤ now) (busy : l.wrote ∨ l.heard) :
    Does now intake l .checkIdle { l with
      nextIdle := Time.due now l.nextIdle l.timing.idle
      wrote := false
      heard := false } none
  | fails {client pending} (ready : l.writer = .ready) (overruns : l.overruns now)
    (letsGo : LetsGo l.client l.pending (l.reader = .stopped) client pending) :
    Does now intake l .overrun { l with
      writer := .stopped
      accepting := false
      queue := []
      client
      pending } none
  | gives {d client} (closing : l.writer = .closing d) (late : d ≤ now ∨ l.cut)
    (letsGo : LetsGo l.client [] (l.reader = .stopped) client []) :
    Does now intake l .closeTimeout { l with
      writer := .stopped
      pending := []
      client } none
  | reports {e} (ended : l.reader = .stopped ∧ l.writer = .stopped)
    (unreported : l.reported = false)
    (event : intake = .accepting ∧ e = some (.closed l.name l.socket) ∨ intake = .shut ∧ e = none) :
    Does now intake l .report { l with reported := true } e

variable {l l' : Link} {now : Nat} {intake : Intake} {a : Act} {e : Option Event} {f : Frame}
  {rest : List Inbound} {left : Bool} {fs : List Frame} {k : Link}

theorem ships_flush (l : Link) : l.Ships [] l.flush := by
  obtain ⟨sent, hsent, hcarries, hall⟩ := l.client.carries_load l.pending
  have hships : l.Ships [] _ := .mk (by rwa [List.append_nil]) hcarries hall
  have hanswers : (if l.client.muted then [] else l.client.answers (l.pending.map (·.1))) =
      if l.client.muted then [] else l.client.answers sent := by
    split
    · rfl
    · rename_i hreads
      rw [hsent, hall (Bool.eq_false_iff.2 hreads), List.map_nil, List.append_nil]
  rw [flush, hanswers]
  exact hships

theorem ships_put (l : Link) (f : Frame) : l.Ships [f] (l.put f) := by
  have hships := ships_flush { l with pending := l.pending ++ [(f, f.size)] }
  rw [put]
  generalize flush _ = k at hships ⊢
  cases hships with
  | mk frames carries all =>
    rw [List.map_append, List.append_nil] at frames
    exact .mk frames carries all

theorem shuts_beginClose (l : Link) (now : Nat) : l.Shuts now (l.beginClose now) := by
  rw [beginClose]
  dsimp only
  split
  · exact .lost ‹_› (l.client.carries_carry .closed 0)
  · rename_i hwhole
    exact .said (Bool.eq_false_iff.2 hwhole) (ships_put _ _)

theorem letGo_eq (l : Link) : ∃ client pending, l.letGo = { l with client, pending } ∧
    LetsGo l.client l.pending (l.reader = .stopped ∧ l.writer = .stopped) client pending := by
  rw [letGo]
  split
  · exact ⟨_, _, rfl, .gone ‹_› (l.client.carries_carry .closed 0)⟩
  · exact ⟨_, _, rfl, .kept ‹_›⟩

theorem LetsGo.congr {c c' : Client} {ps ps' : List (Frame × Nat)} {p q : Prop}
    (h : LetsGo c ps p c' ps') (hpq : p ↔ q) : LetsGo c ps q c' ps' :=
  propext hpq ▸ h

theorem does_stopReading (why : l.Stops now intake a rest left) :
    l.Does now intake a ({ l with arriving := rest, peerClosed := left }.stopReading) none := by
  obtain ⟨client, pending, heq, hletsGo⟩ :=
    letGo_eq { l with reader := .stopped, cancelled := true, arriving := rest, peerClosed := left }
  rw [stopReading, heq]
  exact .stops why (hletsGo.congr (and_iff_right rfl))

theorem does_write {k : Link} (ready : l.writer = .ready) (begins : l.Begins now a f k) :
    l.Does now intake a (k.write now f) none := by
  have hlost : k.cut ∨ k.peerClosed ↔ l.cut ∨ l.peerClosed := by
    cases begins <;> exact Iff.rfl
  rw [write]
  split
  · exact .closes (.lost ready begins (hlost.1 ‹_›)) (k.shuts_beginClose now)
  · exact .sends (.write ready begins (mt hlost.2 ‹_›)) (ships_put _ _)

theorem does_read {d : Nat} {rest : List Inbound} {f : Inbound} (reader : l.reader = .reading d)
    (arriving : l.arriving = f :: rest) :
    l.Does now intake .readFrame ({ l with arriving := rest }.read now f) none := by
  cases f with
  | data xs =>
    rw [read, readData]
    cases hm : Message.decode? xs with
    | none => exact does_stopReading (.bad reader arriving hm)
    | some m => exact .hears reader arriving hm
  | ping =>
    rw [read, answerPing]
    split
    · exact .renews reader arriving (.inr ⟨rfl, ‹_›⟩)
    · rename_i hwhole
      exact .sends (.answer reader arriving (Bool.eq_false_iff.2 hwhole)) (ships_put _ _)
  | pong => exact .renews reader arriving (.inl rfl)
  | close => exact does_stopReading (.leaves reader arriving)

theorem does_act (h : l.act now intake a = some (l', e)) : l.Does now intake a l' e := by
  cases a with
  | readStop =>
    obtain ⟨⟨hcancelled, hreads⟩, h⟩ := Option.ite_none_right_eq_some.1 h
    obtain ⟨rfl, rfl⟩ := Prod.mk.inj (Option.some.inj h)
    have hdoes : l.Does now intake .readStop
        ({ l with arriving := l.arriving, peerClosed := l.peerClosed }.stopReading) none :=
      does_stopReading (.told hcancelled hreads)
    rwa [stopReading, ← hcancelled] at hdoes
  | readFrame =>
    simp only [act] at h
    split at h
    · obtain ⟨rfl, rfl⟩ := Prod.mk.inj (Option.some.inj h)
      exact does_read ‹_› ‹_›
    · cases h
  | readEnd =>
    simp only [act] at h
    split at h
    · obtain ⟨hcut, h⟩ := Option.ite_none_right_eq_some.1 h
      obtain ⟨rfl, rfl⟩ := Prod.mk.inj (Option.some.inj h)
      exact does_stopReading (.cut ‹_› ‹_› hcut)
    · cases h
  | readTimeout =>
    simp only [act] at h
    split at h
    · obtain ⟨hlate, h⟩ := Option.ite_none_right_eq_some.1 h
      obtain ⟨rfl, rfl⟩ := Prod.mk.inj (Option.some.inj h)
      exact does_stopReading (.silent ‹_› hlate)
    · cases h
  | offer =>
    simp only [act] at h
    split at h
    · obtain ⟨rfl, rfl⟩ := Prod.mk.inj (Option.some.inj h)
      exact .tells ‹_› rfl
    · obtain ⟨rfl, rfl⟩ := Prod.mk.inj (Option.some.inj h)
      exact does_stopReading (.shut ‹_› rfl)
    · cases h
  | writeStop =>
    obtain ⟨⟨hready, hcancelled⟩, h⟩ := Option.ite_none_right_eq_some.1 h
    obtain ⟨rfl, rfl⟩ := Prod.mk.inj (Option.some.inj h)
    exact .closes (.told hready hcancelled) (l.shuts_beginClose now)
  | hangUp =>
    obtain ⟨⟨hready, hhungUp, hqueue⟩, h⟩ := Option.ite_none_right_eq_some.1 h
    obtain ⟨rfl, rfl⟩ := Prod.mk.inj (Option.some.inj h)
    exact .closes (.done hready hhungUp hqueue) (l.shuts_beginClose now)
  | writeNext =>
    simp only [act] at h
    split at h
    · obtain ⟨rfl, rfl⟩ := Prod.mk.inj (Option.some.inj h)
      exact does_write ‹_› (.next ‹_›)
    · cases h
  | sendPing =>
    obtain ⟨⟨hready, hdue⟩, h⟩ := Option.ite_none_right_eq_some.1 h
    obtain ⟨rfl, rfl⟩ := Prod.mk.inj (Option.some.inj h)
    exact does_write hready (.ping hdue)
  | sendHint =>
    obtain ⟨⟨hready, hdue⟩, h⟩ := Option.ite_none_right_eq_some.1 h
    obtain ⟨rfl, rfl⟩ := Prod.mk.inj (Option.some.inj h)
    exact does_write hready (.hint hdue)
  | checkIdle =>
    obtain ⟨⟨hready, hdue⟩, h⟩ := Option.ite_none_right_eq_some.1 h
    obtain ⟨rfl, rfl⟩ := Prod.mk.inj (Option.some.inj h)
    rw [idleTick]
    dsimp only
    split
    · exact .stays hready hdue ‹_›
    · exact .closes (.idle hready hdue ‹_›) (shuts_beginClose _ now)
  | overrun =>
    obtain ⟨⟨hready, hoverruns⟩, h⟩ := Option.ite_none_right_eq_some.1 h
    obtain ⟨rfl, rfl⟩ := Prod.mk.inj (Option.some.inj h)
    obtain ⟨client, pending, heq, hletsGo⟩ :=
      letGo_eq { l with writer := .stopped, accepting := false, queue := [] }
    rw [fail, heq]
    exact .fails hready hoverruns (hletsGo.congr (and_iff_left rfl))
  | flush =>
    obtain ⟨⟨hwhole, hwaits, hspace⟩, h⟩ := Option.ite_none_right_eq_some.1 h
    obtain ⟨rfl, rfl⟩ := Prod.mk.inj (Option.some.inj h)
    exact .sends (.flush (by simpa using hwhole) hwaits (by simpa using hspace)) l.ships_flush
  | writeTimeout =>
    simp only [act] at h
    split at h
    · obtain ⟨hlate, h⟩ := Option.ite_none_right_eq_some.1 h
      obtain ⟨rfl, rfl⟩ := Prod.mk.inj (Option.some.inj h)
      exact .closes (.stuck ‹_› hlate) (l.shuts_beginClose now)
    · cases h
  | closeTimeout =>
    simp only [act] at h
    split at h
    · obtain ⟨hlate, h⟩ := Option.ite_none_right_eq_some.1 h
      obtain ⟨rfl, rfl⟩ := Prod.mk.inj (Option.some.inj h)
      obtain ⟨client, pending, heq, hletsGo⟩ :=
        letGo_eq { l with writer := .stopped, pending := [] }
      obtain rfl : pending = [] := by cases hletsGo <;> rfl
      rw [heq]
      exact .gives ‹_› hlate (hletsGo.congr (and_iff_left rfl))
    · cases h
  | report =>
    obtain ⟨⟨hr, hw, hunreported⟩, h⟩ := Option.ite_none_right_eq_some.1 h
    have hunreported : l.reported = false := by simpa using hunreported
    split at h
    · obtain ⟨rfl, rfl⟩ := Prod.mk.inj (Option.some.inj h)
      exact .reports ⟨hr, hw⟩ hunreported (.inl ⟨rfl, rfl⟩)
    · obtain ⟨rfl, rfl⟩ := Prod.mk.inj (Option.some.inj h)
      exact .reports ⟨hr, hw⟩ hunreported (.inr ⟨rfl, rfl⟩)
    · cases h

theorem Ships.frame (h : l.Ships fs l') : ∃ client pending pongs writer, l' = { l with
      client
      pending
      arriving := l.arriving ++ pongs
      writer } ∧ (∀ g ∈ pongs, g = .pong) ∧ (writer = l.writer ∨ writer = l.writer.done) := by
  cases h with
  | mk frames carries all =>
    refine ⟨_, _, _, _, rfl, fun g hg => ?_, ?_⟩
    · split at hg
      · cases hg
      · exact Client.eq_pong_of_mem_answers hg
    · split
      · exact .inr rfl
      · exact .inl rfl

theorem Shuts.frame (h : l.Shuts now l') : ∃ client pending pongs writer, l' = { l with
      cancelled := true
      accepting := false
      queue := []
      client
      pending
      arriving := l.arriving ++ pongs
      writer } ∧ (∀ g ∈ pongs, g = .pong) ∧ writer.over := by
  cases h with
  | lost cut told => exact ⟨_, [], [], _, by rw [List.append_nil], by simp, rfl⟩
  | said whole ships =>
    obtain ⟨client, pending, pongs, writer, rfl, hpongs, rfl | rfl⟩ := ships.frame
    · exact ⟨_, _, _, _, rfl, hpongs, rfl⟩
    · exact ⟨_, _, _, _, rfl, hpongs, rfl⟩

theorem Closes.frame (h : l.Closes now a k) :
    ∃ queue tracked wrote nextPing nextHint nextIdle,
      k = { l with queue, tracked, wrote, nextPing, nextHint, nextIdle } := by
  cases h with
  | lost ready begins => cases begins <;> exact ⟨_, _, _, _, _, _, rfl⟩
  | _ => exact ⟨_, _, _, _, _, _, rfl⟩

theorem Sends.frame (h : l.Sends now a fs k) :
    ∃ reader arriving queue tracked wrote nextPing nextHint writer, k = { l with
      reader, arriving, queue, tracked, wrote, nextPing, nextHint, writer } := by
  cases h with
  | write ready begins => cases begins <;> exact ⟨_, _, _, _, _, _, _, _, rfl⟩
  | _ => exact ⟨_, _, _, _, _, _, _, _, rfl⟩

/-- `l'` is the same connection as `l`. -/
structure SameIdentity (l l' : Link) : Prop where
  socket : l'.socket = l.socket
  name : l'.name = l.name
  timing : l'.timing = l.timing

theorem identity_act (h : l.act now intake a = some (l', e)) : l.SameIdentity l' := by
  cases does_act h with
  | sends why ships =>
    obtain ⟨_, _, _, _, rfl, -⟩ := ships.frame
    obtain ⟨_, _, _, _, _, _, _, _, rfl⟩ := why.frame
    exact ⟨rfl, rfl, rfl⟩
  | closes why shuts =>
    obtain ⟨_, _, _, _, rfl, -⟩ := shuts.frame
    obtain ⟨_, _, _, _, _, _, rfl⟩ := why.frame
    exact ⟨rfl, rfl, rfl⟩
  | _ => exact ⟨rfl, rfl, rfl⟩

theorem cancelled_act (h : l.act now intake a = some (l', e)) (hc : l.cancelled) :
    l'.cancelled := by
  cases does_act h with
  | sends why ships =>
    obtain ⟨_, _, _, _, rfl, -⟩ := ships.frame
    obtain ⟨_, _, _, _, _, _, _, _, rfl⟩ := why.frame
    exact hc
  | closes why shuts =>
    obtain ⟨_, _, _, _, rfl, -⟩ := shuts.frame
    rfl
  | stops => rfl
  | _ => exact hc

/-- The end of a connection is told once, when nothing is read or written any more. -/
theorem told_act (h : l.act now intake a = some (l', e)) :
    l'.reported = l.reported ∧ (∀ name socket, e ≠ some (.closed name socket)) ∨
      l.reader = .stopped ∧ l.writer = .stopped ∧ l.reported = false ∧
        l' = { l with reported := true } ∧
        e = (if intake = .accepting then some (.closed l.name l.socket) else none) ∧
        intake ≠ .full := by
  cases does_act h with
  | sends why ships =>
    obtain ⟨_, _, _, _, rfl, -⟩ := ships.frame
    obtain ⟨_, _, _, _, _, _, _, _, rfl⟩ := why.frame
    exact .inl ⟨rfl, by simp⟩
  | closes why shuts =>
    obtain ⟨_, _, _, _, rfl, -⟩ := shuts.frame
    obtain ⟨_, _, _, _, _, _, rfl⟩ := why.frame
    exact .inl ⟨rfl, by simp⟩
  | reports ended unreported event =>
    refine .inr ⟨ended.1, ended.2, unreported, rfl, ?_⟩
    obtain ⟨rfl, rfl⟩ | ⟨rfl, rfl⟩ := event <;> exact ⟨rfl, by simp⟩
  | _ => exact .inl ⟨rfl, by simp⟩

end Link

end TileRace
