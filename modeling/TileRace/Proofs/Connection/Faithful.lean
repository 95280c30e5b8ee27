import Mathlib.Data.List.Forall2
import Mathlib.Data.List.TakeWhile
import TileRace.Proofs.Connection.Trace

namespace TileRace

namespace Inbound

def legible : Inbound → Bool
  | .data xs => (Message.decode? xs).isSome
  | .ping | .pong => true
  | .close => false

def said? : Inbound → Option Message
  | .data xs => Message.decode? xs
  | _ => none

/-- What a client says, up to the first frame that ends the connection. -/
def said (fs : List Inbound) : List Message := (fs.takeWhile legible).filterMap said?

variable {f : Inbound} {fs fs' : List Inbound}

theorem said_append (h : ∀ f ∈ fs, f.legible) (fs' : List Inbound) :
    said (fs ++ fs') = said fs ++ said fs' := by
  rw [said, List.takeWhile_append_of_pos h, List.filterMap_append, said, said,
    List.takeWhile_eq_self_iff.2 h]

theorem said_prefix (h : fs <+: fs') : said fs <+: said fs' := by
  obtain ⟨gs, rfl⟩ := h
  rw [said, said, List.takeWhile_append]
  split
  · rename_i hlen
    rw [(List.takeWhile_prefix _).eq_of_length hlen, List.filterMap_append]
    exact List.prefix_append _ _
  · exact List.prefix_rfl

theorem said_filter (fs : List Inbound) : said (fs.filter (· ≠ .pong)) = said fs := by
  induction fs with
  | nil => rfl
  | cons f fs ih =>
    have hcons (gs : List Inbound) :
        said (f :: gs) = if f.legible then f.said?.toList ++ said gs else [] := by
      rw [said, List.takeWhile_cons]
      split
      · rw [List.filterMap_cons]
        cases f.said? <;> rfl
      · rfl
    rw [hcons]
    cases f with
    | pong => exact ih
    | data | ping | close =>
      rw [List.filter_cons_of_pos (by simp), hcons, ih]

end Inbound

namespace Client

def messages (c : Client) : List Message := c.unread.filterMap Frame.message?

variable {c c' : Client} {fs : List Frame} {m : Message}

theorem messages_foldl_receive (c : Client) (fs : List Frame) :
    (fs.foldl receive c).messages <+: c.messages ++ fs.filterMap Frame.message? ∧
      (c.finished → (fs.foldl receive c).messages = c.messages) ∧
      ((fs.foldl receive c).finished = false →
        (fs.foldl receive c).messages = c.messages ++ fs.filterMap Frame.message?) := by
  induction fs generalizing c with
  | nil => simp
  | cons f fs ih =>
    rw [List.foldl_cons]
    by_cases hfinished : c.finished
    · have hsame : c.receive f = c := by rw [receive, if_pos hfinished]
      have hseen := (ih c).2.1 hfinished
      have hend : (fs.foldl receive c).finished := by
        obtain ⟨unread, finished, hfs, hkept⟩ := foldl_receive_eq c fs
        rw [hfs]
        exact hkept hfinished
      rw [hsame]
      exact ⟨hseen ▸ List.prefix_append _ _, fun _ => hseen, fun h => by cases h.symm.trans hend⟩
    · have hmessages : (c.receive f).messages = c.messages ++ f.message?.toList := by
        rw [receive, if_neg hfinished, messages, messages, List.filterMap_append]
        cases f <;> rfl
      have hcons : (f :: fs).filterMap Frame.message? =
          f.message?.toList ++ fs.filterMap Frame.message? := by
        rw [List.filterMap_cons]
        cases f.message? <;> rfl
      obtain ⟨hle, -, hall⟩ := ih (c.receive f)
      rw [hmessages, List.append_assoc, ← hcons] at hle hall
      exact ⟨hle, fun h => (hfinished h).elim, hall⟩

theorem messages_sip (c : Client) (n : Nat) :
    (c.sip n).messages <+: c.messages ++ (c.transit.take n).filterMap Frame.message? ∧
      (c.finished → (c.sip n).messages = c.messages) ∧
      ((c.sip n).finished = false →
        (c.sip n).messages = c.messages ++ (c.transit.take n).filterMap Frame.message?) :=
  messages_foldl_receive _ _

theorem Carries.delivers (h : c.Carries fs c') (still : c.muted = false → c.transit = []) :
    (c'.muted = false → c'.transit = []) ∧ (c.finished → c'.messages = c.messages) ∧
      c'.messages <+:
        c.messages ++ c.transit.filterMap Frame.message? ++ fs.filterMap Frame.message? ∧
      (c'.finished = false → c'.messages ++ c'.transit.filterMap Frame.message? =
        c.messages ++ c.transit.filterMap Frame.message? ++ fs.filterMap Frame.message?) := by
  cases h with
  | held muted =>
    refine ⟨fun hm => absurd muted (Bool.eq_false_iff.1 hm), fun _ => rfl, ?_, fun _ => ?_⟩
    · rw [List.append_assoc]
      exact List.prefix_append _ _
    · rw [List.filterMap_append, ← List.append_assoc]
      rfl
  | read reads =>
    obtain ⟨hle, hseen, hall⟩ := messages_foldl_receive c fs
    obtain ⟨unread, finished, hfs, -⟩ := foldl_receive_eq c fs
    have hnone : (fs.foldl receive c).transit = [] := by rw [hfs]; exact still reads
    rw [still reads, List.filterMap_nil, List.append_nil]
    refine ⟨fun _ => hnone, hseen, hle, fun hf => ?_⟩
    rw [hnone, hall hf, List.filterMap_nil, List.append_nil]

end Client

namespace Link

/-- The messages that are on the way to the client, or wait for space. -/
def coming (l : Link) : List Message :=
  (l.client.transit ++ l.pending.map (·.1)).filterMap Frame.message?

/-- What becomes of what was sent to the client when `ms` is written after it. What is on the way is
not lost before the client has seen the end or the writer has stopped. -/
structure Delivers (l : Link) (ms : List Message) (l' : Link) : Prop where
  still : l'.client.muted = false → l'.client.transit = []
  seen : l.client.finished → l'.client.messages = l.client.messages
  finished : l.client.finished → l'.client.finished
  messages : l'.client.messages <+: l.client.messages ++ (l.coming ++ ms)
  rest : l'.client.finished = false →
    l'.client.messages ++ l'.coming <+: l.client.messages ++ (l.coming ++ ms)
  all : l'.client.finished = false → l'.writer ≠ .stopped →
    l'.client.messages ++ l'.coming = l.client.messages ++ (l.coming ++ ms)

variable {l l' k : Link} {now : Nat} {intake : Intake} {a : Act} {e : Option Event} {m : Message}
  {f : Inbound} {fs : List Frame} {ms : List Message} {c : Client} {p : Prop}

theorem Ships.delivers (h : l.Ships fs l')
    (still : l.client.muted = false → l.client.transit = []) :
    l.Delivers (fs.filterMap Frame.message?) l' := by
  cases h with
  | @mk sent pending client frames carries all =>
    obtain ⟨hstill, hseen, hle, hall⟩ := carries.delivers still
    have hframes := congrArg (List.filterMap Frame.message?) frames
    rw [List.filterMap_append, List.filterMap_append] at hframes
    have hcoming : l.coming ++ fs.filterMap Frame.message? =
        l.client.transit.filterMap Frame.message? ++ sent.filterMap Frame.message? ++
          (pending.map (·.1)).filterMap Frame.message? := by
      rw [coming, List.filterMap_append, List.append_assoc, hframes, List.append_assoc]
    have heq (hf : client.finished = false) : client.messages ++
        (client.transit ++ pending.map (·.1)).filterMap Frame.message? =
          l.client.messages ++ (l.coming ++ fs.filterMap Frame.message?) := by
      rw [List.filterMap_append, ← List.append_assoc, hall hf, hcoming]
      simp only [List.append_assoc]
    refine ⟨hstill, hseen, carries.keeps.2.2.2, ?_, fun hf => ?_, fun hf _ => heq hf⟩
    · rw [hcoming, ← List.append_assoc, ← List.append_assoc]
      exact hle.trans (List.prefix_append _ _)
    · rw [← heq hf]
      exact List.prefix_rfl

theorem delivers_nothing {sent : List Frame} (carries : l.client.Carries sent c)
    (hsent : sent.filterMap Frame.message? = [])
    (still : l.client.muted = false → l.client.transit = []) (hc : l'.client = c)
    (hp : l'.pending = l.pending ∨ l'.pending = [] ∧ l'.writer = .stopped) : l.Delivers [] l' := by
  subst hc
  obtain ⟨hstill, hseen, hle, hall⟩ := carries.delivers still
  rw [hsent, List.append_nil] at hle hall
  have hcoming (k : Link) : k.coming = k.client.transit.filterMap Frame.message? ++
      (k.pending.map (·.1)).filterMap Frame.message? := List.filterMap_append
  refine ⟨hstill, hseen, carries.keeps.2.2.2, ?_, fun hf => ?_, fun hf hw => ?_⟩
  all_goals rw [List.append_nil, hcoming l, ← List.append_assoc]
  · exact hle.trans (List.prefix_append _ _)
  all_goals rw [hcoming l', ← List.append_assoc, hall hf]
  · refine (List.prefix_append_right_inj _).2 ?_
    obtain hp | ⟨hp, -⟩ := hp
    · exact hp ▸ List.prefix_rfl
    · rw [hp]
      exact List.nil_prefix
  · rw [hp.resolve_right fun hp => hw hp.2]

theorem LetsGo.carries {c' : Client} {ps ps' : List (Frame × Nat)} (h : LetsGo c ps p c' ps') :
    ∃ sent, c.Carries sent c' ∧ sent.filterMap Frame.message? = [] ∧
      (ps' = ps ∨ ps' = [] ∧ p) := by
  cases h with
  | kept => exact ⟨[], c.carries_nil, rfl, .inl rfl⟩
  | gone stopped carries => exact ⟨_, carries, rfl, .inr ⟨rfl, stopped⟩⟩

theorem delivers_sip (n : Nat) (still : l.client.muted = false → l.client.transit = []) :
    l.Delivers [] (l.sip n) := by
  obtain ⟨_, _, _, hsip, hkept⟩ := l.client.sip_eq n
  obtain ⟨hle, hseen, hall⟩ := l.client.messages_sip n
  have htransit : (l.sip n).client.transit = l.client.transit.drop n := congrArg Client.transit hsip
  have hcoming : l.coming =
      (l.client.transit.take n).filterMap Frame.message? ++ (l.sip n).coming := by
    rw [coming, coming, htransit, ← List.filterMap_append, ← List.append_assoc,
      List.take_append_drop]
    rfl
  have heq (hf : (l.sip n).client.finished = false) :
      (l.sip n).client.messages ++ (l.sip n).coming = l.client.messages ++ (l.coming ++ []) := by
    rw [hcoming, List.append_nil, ← List.append_assoc]
    exact congrArg (· ++ (l.sip n).coming) (hall hf)
  refine ⟨fun hm => ?_, hseen, fun hf => ?_, ?_, fun hf => ?_, fun hf _ => heq hf⟩
  · rw [htransit, still ((congrArg Client.muted hsip).symm.trans hm), List.drop_nil]
  · exact (congrArg Client.finished hsip).trans (hkept hf)
  · rw [hcoming, List.append_nil, ← List.append_assoc]
    exact hle.trans (List.prefix_append _ _)
  · exact heq hf ▸ List.prefix_rfl

theorem delivers_unmute (still : l.client.muted = false → l.client.transit = []) :
    l.Delivers [] l.unmute := by
  have hsip := delivers_sip l.client.transit.length still
  refine ⟨fun _ => ?_, hsip.seen, hsip.finished, hsip.messages, hsip.rest, hsip.all⟩
  obtain ⟨_, _, _, hunmuted, -⟩ := l.client.sip_eq l.client.transit.length
  exact (congrArg Client.transit hunmuted).trans List.drop_length

theorem Delivers.of_before (h : k.Delivers ms l') (hc : k.client = l.client)
    (hp : k.pending = l.pending) : l.Delivers ms l' := by
  have hcoming : k.coming = l.coming := by rw [coming, hc, hp, coming]
  obtain ⟨still, seen, finished, messages, rest, all⟩ := h
  rw [hc] at seen finished messages rest all
  rw [hcoming] at messages rest all
  exact ⟨still, seen, finished, messages, rest, all⟩

theorem Shuts.delivers (h : l.Shuts now l')
    (still : l.client.muted = false → l.client.transit = []) : l.Delivers [] l' := by
  cases h with
  | lost cut told => exact delivers_nothing told rfl still rfl (.inr ⟨rfl, rfl⟩)
  | said whole ships => exact (ships.delivers still).of_before rfl rfl

theorem Sends.frames_eq (h : l.Sends now a fs k) :
    k.client = l.client ∧ k.pending = l.pending ∧
      fs.filterMap Frame.message? = (l.writes? a).toList := by
  cases h with
  | answer => exact ⟨rfl, rfl, by simp [writes?, Frame.message?]⟩
  | flush => exact ⟨rfl, rfl, by simp [writes?]⟩
  | write ready begins whole =>
    cases begins with
    | next queue => exact ⟨rfl, rfl, by simp [writes?, Frame.message?, whole, queue]⟩
    | ping => exact ⟨rfl, rfl, by simp [writes?, Frame.message?]⟩
    | hint => exact ⟨rfl, rfl, by simp [writes?, Frame.message?, whole]⟩

theorem Closes.frames_eq (h : l.Closes now a k) :
    k.client = l.client ∧ k.pending = l.pending ∧ l.writes? a = none := by
  cases h with
  | lost ready begins lost =>
    cases begins <;> exact ⟨rfl, rfl, if_pos lost⟩
  | _ => exact ⟨rfl, rfl, ite_self none⟩

/-- The client gets what is written, and nothing else. -/
theorem delivers_act (h : l.act now intake a = some (l', e))
    (still : l.client.muted = false → l.client.transit = []) :
    l.Delivers (l.writes? a).toList l' := by
  have hnothing {c : Client} {sent : List Frame} (carries : l.client.Carries sent c)
      (hsent : sent.filterMap Frame.message? = []) (hc : l'.client = c)
      (hp : l'.pending = l.pending ∨ l'.pending = [] ∧ l'.writer = .stopped)
      (ha : l.writes? a = none) : l.Delivers (l.writes? a).toList l' := by
    rw [ha]
    exact delivers_nothing carries hsent still hc hp
  cases does_act h with
  | sends why ships =>
    obtain ⟨hc, hp, hms⟩ := why.frames_eq
    rw [← hms]
    refine (ships.delivers ?_).of_before hc hp
    rwa [hc]
  | closes why shuts =>
    obtain ⟨hc, hp, hms⟩ := why.frames_eq
    rw [hms]
    refine (shuts.delivers ?_).of_before hc hp
    rwa [hc]
  | stops why letsGo =>
    obtain ⟨sent, carries, hsent, hp⟩ := letsGo.carries
    exact hnothing carries hsent rfl hp (by cases why <;> exact ite_self none)
  | fails ready overruns letsGo =>
    obtain ⟨sent, carries, hsent, hp⟩ := letsGo.carries
    exact hnothing carries hsent rfl (hp.imp_right fun hp => ⟨hp.1, rfl⟩) (ite_self none)
  | gives closing late letsGo =>
    obtain ⟨sent, carries, hsent, -⟩ := letsGo.carries
    exact hnothing carries hsent rfl (.inr ⟨rfl, rfl⟩) (ite_self none)
  | _ => exact hnothing l.client.carries_nil rfl rfl (.inl rfl) (ite_self none)

/-- The writer waits only for what is pending, and nothing is pending once both halves have
stopped. -/
structure Orderly (l : Link) : Prop where
  waits : l.writer ≠ .ready → l.writer ≠ .stopped → l.pending ≠ []
  spent : l.reader = .stopped → l.writer = .stopped → l.pending = []

theorem Ships.orderly (h : k.Ships fs l') (busy : k.reader = .stopped → k.writer ≠ .stopped) :
    l'.Orderly := by
  have hdone : k.writer.done = .ready ∨ k.writer.done = .stopped := by
    cases k.writer <;> simp [Writer.done]
  cases h with
  | @mk sent pending client =>
    cases pending with
    | nil => exact ⟨fun hr hs => absurd hdone (not_or.2 ⟨hr, hs⟩), fun _ _ => rfl⟩
    | cons => exact ⟨(fun _ _ h => by cases h), fun hr hw => (busy hr hw).elim⟩

theorem orderly_act (hl : l.Orderly) (h : l.act now intake a = some (l', e)) : l'.Orderly := by
  cases does_act h with
  | sends why ships =>
    refine ships.orderly ?_
    cases why with
    | answer => exact nofun
    | write ready begins => exact fun _ => nofun
    | flush whole waits => exact fun hr hw => waits (hl.spent hr hw)
  | closes why shuts =>
    cases shuts with
    | lost => exact ⟨fun _ h => (h rfl).elim, fun _ _ => rfl⟩
    | said whole ships => exact ships.orderly fun _ => nofun
  | stops why letsGo =>
    cases letsGo with
    | gone stopped => exact ⟨fun _ h => (h stopped).elim, fun _ _ => rfl⟩
    | kept goes => exact ⟨hl.waits, fun _ h => (goes h).elim⟩
  | fails ready overruns letsGo =>
    refine ⟨fun _ h => (h rfl).elim, fun hr _ => ?_⟩
    cases letsGo with
    | gone => rfl
    | kept goes => exact (goes hr).elim
  | gives => exact ⟨fun _ h => (h rfl).elim, fun _ _ => rfl⟩
  | hears | renews | tells => exact ⟨hl.waits, nofun⟩
  | stays | reports => exact ⟨hl.waits, hl.spent⟩

theorem Orderly.over_act (hl : l.Orderly) (hr : l.reader = .stopped) (hw : l.writer = .stopped)
    (h : l.reported) (now : Nat) (intake : Intake) (a : Act) : l.act now intake a = none := by
  cases a <;> simp [act, hr, hw, h, hl.spent hr hw]

/-- As long as the end was not told, something is done sooner or later. -/
theorem exists_act (h : l.reported = false) (now : Nat) :
    ∃ later a, now ≤ later ∧ (l.act later .accepting a).isSome := by
  have hle (d : Nat) : now ≤ max now d ∧ d ≤ max now d :=
    ⟨Nat.le_max_left _ _, Nat.le_max_right _ _⟩
  cases hr : l.reader with
  | reading d =>
    refine ⟨max now d, .readTimeout, (hle d).1, ?_⟩
    simp [act, hr, (hle d).2]
  | offering m =>
    refine ⟨now, .offer, Nat.le_refl _, ?_⟩
    simp [act, hr]
  | stopped =>
    cases hw : l.writer with
    | ready =>
      refine ⟨max now l.nextIdle, .checkIdle, (hle _).1, ?_⟩
      simp [act, hw, (hle _).2]
    | writing d =>
      refine ⟨max now d, .writeTimeout, (hle d).1, ?_⟩
      simp [act, hw, (hle d).2]
    | closing d =>
      refine ⟨max now d, .closeTimeout, (hle d).1, ?_⟩
      simp [act, hw, (hle d).2]
    | stopped =>
      refine ⟨now, .report, Nat.le_refl _, ?_⟩
      simp [act, hr, hw, h]

theorem Orderly.completes (hl : l.Orderly) {d : Nat} (hw : l.writer = .writing d)
    (hcut : l.cut = false) (hreads : l.client.muted = false) (now : Nat) (intake : Intake) :
    ∃ l', l.act now intake .flush = some (l', none) ∧ l'.writer = .ready ∧ l'.pending = [] ∧
      l'.client.muted = false := by
  have hpending : l.pending ≠ [] := hl.waits (by simp [hw]) (by simp [hw])
  obtain ⟨sent, -, carries, hall⟩ := l.client.carries_load l.pending
  refine ⟨l.flush, if_pos ⟨by simp [hcut], hpending, .inl (by simp [hreads])⟩, ?_, hall hreads,
    carries.keeps.1.trans hreads⟩
  rw [flush]
  simp [hall hreads, hw, Writer.done]

end Link

namespace Trace

/-- A request as the connection passes it on. It is about the game that the client followed when
some of what was queued for it had been written, unless it names the game to join. -/
def Stamped (socket : SocketId) (name : String) (queued : List Message) (d m : Message) : Prop :=
  ∃ taken, taken <+: queued ∧ m = { d with
    player := some name
    socket := some socket
    gameId := if d.kind = .joinGame ∧ d.gameId.isSome then d.gameId else taken.foldl track none }

/-- How far the connection has got with what is queued for its client. -/
structure Follows (r : Trace) : Prop where
  attuned : r.link.Attuned
  taken : ∃ taken, taken <+: r.queued ∧ r.link.tracked = taken.foldl track none ∧
    r.texts <+: taken ∧
    (r.link.accepting → r.queued = taken ++ r.link.queue ∧ r.texts = taken)

/-- How much of what was written has reached the client. -/
structure Reaches (r : Trace) : Prop where
  orderly : r.link.Orderly
  still : r.link.client.muted = false → r.link.client.transit = []
  received : r.received <+: r.written.map (·.2)
  rest : r.link.client.finished = false → r.received ++ r.link.coming <+: r.written.map (·.2)
  all : r.link.client.finished = false → r.link.writer ≠ .stopped →
    r.received ++ r.link.coming = r.written.map (·.2)

structure Tells (r : Trace) (socket : SocketId) (name : String) (ms : List Message) : Prop where
  own : r.link.socket = socket ∧ r.link.name = name
  events : r.events.map (·.2) =
    ms.map .inbound ++ if r.link.reported then [.closed name socket] else []
  ended : r.link.reported → r.link.reader = .stopped ∧ r.link.writer = .stopped

structure Hears (l : Link) (sent : List Inbound) (queued ds ms : List Message) : Prop where
  stamped : List.Forall₂ (Stamped l.socket l.name queued) ds (ms ++ l.offer?.toList)
  said : ds <+: Inbound.said sent
  reading : l.reader ≠ .stopped → ∃ done, (∀ f ∈ done, f.legible) ∧ Inbound.said done = ds ∧
    sent.filter (· ≠ .pong) = done ++ l.arriving.filter (· ≠ .pong)

/-- All that is known of a connection that has read `ds` and told the lobby `ms`. -/
structure Relays (r : Trace) (socket : SocketId) (name : String) (ds ms : List Message) :
    Prop where
  follows : r.Follows
  hears : Hears r.link r.sent r.queued ds ms
  tells : r.Tells socket name ms

/-- The connection has told the lobby what its client said, in order and up to some point, and its
own end last of all. It has written what was queued for the client, in order and up to some point,
and of all that it has written the client has received what came first. The rest is on the way as
long as the writer goes on, and a write that waits is completed once the client reads. -/
structure Faithful (r : Trace) (socket : SocketId) (name : String) : Prop where
  told : ∃ ds ms, ds <+: Inbound.said r.sent ∧
    List.Forall₂ (Stamped socket name r.queued) ds ms ∧
    r.events.map (·.2) = ms.map .inbound ++ if r.link.reported then [.closed name socket] else []
  finished : r.link.reported ↔
    ∀ later, r.now ≤ later → ∀ a, r.link.act later .accepting a = none
  texts : r.texts <+: r.queued
  received : r.received <+: r.written.map (·.2)
  coming : r.link.client.finished = false → r.link.writer ≠ .stopped →
    r.received ++ r.link.coming = r.written.map (·.2)
  completes : ∀ d, r.link.writer = .writing d → r.link.cut = false →
    r.link.client.muted = false → ∃ r', r.step (.act .flush) = some r' ∧
      r'.link.writer = .ready ∧ r'.link.coming = []

variable {r r' : Trace} {mv : Link.Move} {mvs : List Link.Move} {a : Link.Act}
  {socket : SocketId} {name : String} {queued queued' ds ms : List Message} {d m : Message}
  {l l' : Link} {sent : List Inbound} {now : Nat} {e : Option Event}

theorem Stamped.mono (h : Stamped socket name queued d m) (hq : queued <+: queued') :
    Stamped socket name queued' d m := by
  obtain ⟨taken, htaken, hm⟩ := h
  exact ⟨taken, htaken.trans hq, hm⟩

theorem Follows.outside (hs : r.Follows) (ho : r.Outside r') : r'.Follows := by
  obtain ⟨taken, htaken, htracked, htexts, hall⟩ := hs.taken
  obtain ⟨ms, hqueued, hqueue⟩ := ho.queues
  have hsame : r'.texts = r.texts := by rw [texts, ho.written, texts]
  refine ⟨?_, taken, ?_, ho.tracked.trans htracked, hsame ▸ htexts, fun hacc => ?_⟩
  · rw [Link.Attuned, ho.accepting, ho.writer]
    exact hs.attuned
  · rw [hqueued]
    exact htaken.trans (List.prefix_append _ _)
  · obtain ⟨hsplit, hwritten⟩ := hall (ho.accepting ▸ hacc)
    refine ⟨?_, hsame.trans hwritten⟩
    rw [hqueued, hqueue, hsplit, List.append_assoc]

theorem writes?_of_ne (next : a ≠ .writeNext) (hint : a ≠ .sendHint) : l.writes? a = none := by
  cases a with
  | writeNext => exact (next rfl).elim
  | sendHint => exact (hint rfl).elim
  | _ => exact ite_self none

theorem texts_act_of_ne (h : r.step (.act a) = some r') (ha : a ≠ .writeNext) :
    r'.texts = r.texts := by
  obtain ⟨l, e, -, rfl⟩ := step_act h
  rw [texts, List.filter_append, texts]
  by_cases hint : a = .sendHint
  · cases r.link.writes? a <;> simp [hint]
  · rw [writes?_of_ne ha hint]
    simp

theorem texts_writeNext (h : r.step (.act .writeNext) = some r') :
    r'.texts = r.texts ++ (r.link.writes? .writeNext).toList := by
  obtain ⟨l, e, -, rfl⟩ := step_act h
  rw [texts, List.filter_append, texts, List.map_append]
  cases r.link.writes? .writeNext <;> rfl

theorem written_of_accepting (h : l.act now intake .writeNext = some (l', e))
    (ha : l'.accepting) : ¬(l.cut ∨ l.peerClosed) := by
  cases Link.does_act h with
  | stops why => cases why
  | sends why => cases why with
    | write ready begins whole => exact whole
  | closes why shuts => exact absurd ha (by simp [shuts.closing.accepting])

theorem Follows.act (hs : r.Follows) (h : r.step (.act a) = some r') : r'.Follows := by
  obtain ⟨taken, htaken, htracked, htexts, hall⟩ := hs.taken
  obtain ⟨l, e, hact, hr'⟩ := step_act h
  have hlink : r'.link = l := by rw [hr']
  have hsame : r'.queued = r.queued := by rw [hr']
  rw [← hlink] at hact
  refine ⟨Link.attuned_act hs.attuned hact, ?_⟩
  by_cases ha : a = .writeNext
  · subst ha
    obtain ⟨m, rest, hw, hq, hqueue⟩ := Link.act_writeNext hact
    have haccepting : r.link.accepting := by rw [hs.attuned, hw]; rfl
    obtain ⟨hqueued, hwritten⟩ := hall haccepting
    have hsplit : r.queued = taken ++ [m] ++ rest := by
      rw [hqueued, hq, List.append_assoc, List.singleton_append]
    refine ⟨taken ++ [m], ?_, ?_, ?_, fun hacc => ⟨?_, ?_⟩⟩
    · rw [hsame, hsplit]
      exact List.prefix_append _ _
    · rw [hqueue.tracked, List.foldl_append, ← htracked]
      rfl
    · rw [texts_writeNext h, hwritten, Link.writes?, hq]
      split
      · exact ⟨[m], by simp⟩
      · exact List.prefix_rfl
    · rw [hsame, hsplit, (hqueue.queue hacc).2]
    · rw [texts_writeNext h, hwritten, Link.writes?, if_neg (written_of_accepting hact hacc), hq]
      rfl
  · have hqueue := Link.sameQueue_act ha hact
    have hsametexts := texts_act_of_ne h ha
    refine ⟨taken, hsame ▸ htaken, hqueue.tracked.trans htracked, hsametexts ▸ htexts,
      fun hacc => ?_⟩
    obtain ⟨hacc, hq⟩ := hqueue.queue hacc
    rw [hsame, hsametexts, hq]
    exact hall hacc

theorem received_eq (r : Trace) :
    r.received = r.seen.filterMap Frame.message? ++ r.link.client.messages := by
  rw [received, List.filterMap_append, Client.messages]

theorem Reaches.of_delivers (hs : r.Reaches) (h : r.link.Delivers ms r'.link)
    (horderly : r'.link.Orderly) (hstopped : r.link.writer = .stopped → r'.link.writer = .stopped)
    (hms : ms = [] ∨ r.link.writer = .ready) (hseen : r'.seen = r.seen)
    (hwritten : r'.written.map (·.2) = r.written.map (·.2) ++ ms) : r'.Reaches := by
  have hbefore (hf : r.link.client.finished = false) :
      r.received ++ (r.link.coming ++ ms) <+: r'.written.map (·.2) := by
    rw [hwritten, ← List.append_assoc]
    obtain rfl | hready := hms
    · rw [List.append_nil, List.append_nil]
      exact hs.rest hf
    · exact hs.all hf (by simp [hready]) ▸ List.prefix_rfl
  have hunfinished (hf : r'.link.client.finished = false) : r.link.client.finished = false :=
    Bool.eq_false_iff.2 fun h' => Bool.eq_false_iff.1 hf (h.finished h')
  have hmore (xs ys : List Message) (hle : r'.link.client.messages ++ xs <+:
      r.link.client.messages ++ ys) : r'.received ++ xs <+: r.received ++ ys := by
    rw [received_eq, received_eq, hseen, List.append_assoc, List.append_assoc]
    exact (List.prefix_append_right_inj _).2 hle
  refine ⟨horderly, h.still, ?_, fun hf => ?_, fun hf hw => ?_⟩
  · cases hf : r.link.client.finished with
    | true =>
      rw [received_eq, h.seen hf, hseen, ← received_eq, hwritten]
      exact hs.received.trans (List.prefix_append _ _)
    | false =>
      have hle := hmore [] _ (by rw [List.append_nil]; exact h.messages)
      rw [List.append_nil] at hle
      exact hle.trans (hbefore hf)
  · exact (hmore _ _ (h.rest hf)).trans (hbefore (hunfinished hf))
  · rw [received_eq, hseen, List.append_assoc, h.all hf hw, hwritten,
      ← hs.all (hunfinished hf) (mt hstopped hw), received_eq]
    simp only [List.append_assoc]

theorem ready_of_writes (h : l.act now intake a = some (l', e)) (hm : l.writes? a ≠ none) :
    l.writer = .ready := by
  cases a with
  | writeNext =>
    obtain ⟨_, _, hw, -⟩ := Link.act_writeNext h
    exact hw
  | sendHint => exact (Option.ite_none_right_eq_some.1 h).1.1
  | _ => exact (hm (ite_self none)).elim

theorem Reaches.act (hs : r.Reaches) (h : r.step (.act a) = some r') : r'.Reaches := by
  obtain ⟨l, e, hact, rfl⟩ := step_act h
  refine hs.of_delivers (Link.delivers_act hact hs.still) (Link.orderly_act hs.orderly hact)
    (Link.stopped_act hact) ?_ rfl ?_
  · cases hm : r.link.writes? a with
    | none => exact .inl rfl
    | some m => exact .inr (ready_of_writes hact (by simp [hm]))
  · rw [List.map_append]
    cases r.link.writes? a <;> rfl

theorem Reaches.of_eq (hs : r.Reaches) (hreader : r'.link.reader = r.link.reader)
    (hwriter : r'.link.writer = r.link.writer) (hpending : r'.link.pending = r.link.pending)
    (htransit : r'.link.client.transit = r.link.client.transit)
    (hmuted : r'.link.client.muted = false → r.link.client.muted = false)
    (hfinished : r'.link.client.finished = false → r.link.client.finished = false)
    (hreceived : r'.received = r.received) (hwritten : r'.written = r.written) : r'.Reaches := by
  have hcoming : r'.link.coming = r.link.coming := by
    rw [Link.coming, htransit, hpending, Link.coming]
  constructor
  case orderly =>
    constructor
    · rw [hwriter, hpending]
      exact hs.orderly.waits
    · rw [hreader, hwriter, hpending]
      exact hs.orderly.spent
  case still => exact fun hm => htransit.trans (hs.still (hmuted hm))
  case received => rw [hreceived, hwritten]; exact hs.received
  case rest => rw [hreceived, hwritten, hcoming]; exact fun hf => hs.rest (hfinished hf)
  case all =>
    rw [hreceived, hwritten, hcoming, hwriter]
    exact fun hf => hs.all (hfinished hf)

theorem Reaches.step (hs : r.Reaches) (h : r.step mv = some r') : r'.Reaches := by
  cases mv with
  | act a => exact hs.act h
  | send f =>
    obtain ⟨-, h⟩ := Option.ite_none_left_eq_some.1 h
    cases h
    by_cases hleft : r.link.client.left
    · rw [Link.send, if_pos hleft]
      exact hs.of_eq rfl rfl rfl rfl id id rfl rfl
    · rw [Link.send, if_neg hleft]
      exact hs.of_eq rfl rfl rfl rfl id id rfl rfl
  | queue m =>
    obtain ⟨-, h⟩ := Option.ite_none_right_eq_some.1 h
    cases h
    exact hs.of_eq rfl rfl rfl rfl id id rfl rfl
  | look =>
    cases h
    refine hs.of_eq rfl rfl rfl rfl id id ?_ rfl
    exact congrArg (List.filterMap Frame.message?) (List.append_nil _)
  | mute =>
    cases h
    exact hs.of_eq rfl rfl rfl rfl (fun h => by cases h) id rfl rfl
  | drop =>
    cases h
    exact hs.of_eq rfl rfl rfl rfl id (fun h => by cases h) rfl rfl
  | sip n =>
    cases h
    exact hs.of_delivers (Link.delivers_sip n hs.still) ⟨hs.orderly.waits, hs.orderly.spent⟩ id
      (.inl rfl) rfl (List.append_nil _).symm
  | unmute =>
    cases h
    exact hs.of_delivers (Link.delivers_unmute hs.still) ⟨hs.orderly.waits, hs.orderly.spent⟩ id
      (.inl rfl) rfl (List.append_nil _).symm
  | hangUp | cancel | wait =>
    cases h
    exact hs.of_eq rfl rfl rfl rfl id id rfl rfl

theorem Hears.of_eq (h : Hears l sent queued ds ms) (fs pongs : List Inbound)
    (hown : l'.socket = l.socket ∧ l'.name = l.name) (hr : l'.reader = l.reader)
    (hq : queued <+: queued')
    (ha : l'.arriving = l.arriving ++ fs ++ pongs) (hpongs : ∀ f ∈ pongs, f = .pong) :
    Hears l' (sent ++ fs) queued' ds ms where
  stamped := by
    rw [Link.offer?_congr hr, hown.1, hown.2]
    exact h.stamped.imp fun d m hm => hm.mono hq
  said := h.said.trans (Inbound.said_prefix (List.prefix_append _ _))
  reading hne := by
    obtain ⟨done, hdone, hsaid, hrest⟩ := h.reading (hr ▸ hne)
    refine ⟨done, hdone, hsaid, ?_⟩
    have hnone : pongs.filter (· ≠ .pong) = [] := by simpa using hpongs
    simp only [ha, List.filter_append, hrest, hnone, List.append_assoc, List.append_nil]

theorem Hears.stopped (h : Hears l sent queued ds ms)
    (hown : l'.socket = l.socket ∧ l'.name = l.name) (hr : l'.reader = .stopped) :
    Hears l' sent queued (ds.take ms.length) ms where
  stamped := by
    have hnone : l'.offer? = none := by rw [Link.offer?, hr]
    rw [hnone, hown.1, hown.2, Option.toList_none, List.append_nil]
    exact List.forall₂_take_append _ _ _ h.stamped
  said := (List.take_prefix _ _).trans h.said
  reading hne := (hne hr).elim

theorem Hears.passed (h : Hears l sent queued ds ms)
    (hown : l'.socket = l.socket ∧ l'.name = l.name) (hr : l.reader = .offering m) {t : Nat}
    (hr' : l'.reader = .reading t) (ha : l'.arriving = l.arriving) :
    Hears l' sent queued ds (ms ++ [m]) where
  stamped := by
    have hoffer : l.offer? = some m := by rw [Link.offer?, hr]
    have hnone : l'.offer? = none := by rw [Link.offer?, hr']
    have hstamped := h.stamped
    rw [hoffer] at hstamped
    rwa [hnone, hown.1, hown.2, Option.toList_none, List.append_nil]
  said := h.said
  reading _ := by
    rw [ha]
    exact h.reading (by simp [hr])

theorem Hears.more (h : Hears l sent queued ds ms)
    (hown : l'.socket = l.socket ∧ l'.name = l.name) {t : Nat} (hr : l.reader = .reading t)
    {f : Inbound} {rest : List Inbound} (ha : l.arriving = f :: rest) (hf : f.legible)
    (ha' : l'.arriving = rest)
    (hoffer : List.Forall₂ (Stamped l.socket l.name queued) f.said?.toList l'.offer?.toList) :
    Hears l' sent queued (ds ++ f.said?.toList) ms := by
  obtain ⟨done, hdone, hsaid, hrest⟩ := h.reading (by simp [hr])
  have hnone : l.offer? = none := by rw [Link.offer?, hr]
  have hstamped := h.stamped
  rw [hnone, Option.toList_none, List.append_nil] at hstamped
  have hread : ∃ read, (∀ g ∈ read, g.legible) ∧ Inbound.said read = ds ++ f.said?.toList ∧
      sent.filter (· ≠ .pong) = read ++ l'.arriving.filter (· ≠ .pong) := by
    by_cases hpong : f = .pong
    · subst hpong
      refine ⟨done, hdone, by rw [hsaid]; exact (List.append_nil _).symm, ?_⟩
      rw [hrest, ha, ha', List.filter_cons_of_neg (by simp)]
    · refine ⟨done ++ [f], fun g hg => ?_, ?_, ?_⟩
      · obtain hg | hg := List.mem_append.1 hg
        · exact hdone g hg
        · rwa [List.mem_singleton.1 hg]
      · rw [Inbound.said_append hdone, hsaid, Inbound.said, List.takeWhile_cons_of_pos hf]
        cases hs : f.said? <;> simp [hs]
      · rw [hrest, ha, ha', List.filter_cons_of_pos (by simpa using hpong), List.append_assoc,
          List.singleton_append]
  obtain ⟨read, hlegible, hread, hsplit⟩ := hread
  refine ⟨?_, ?_, fun _ => ⟨read, hlegible, hread, hsplit⟩⟩
  · rw [hown.1, hown.2]
    exact List.rel_append hstamped hoffer
  · rw [← Inbound.said_filter sent, hsplit, Inbound.said_append hlegible, hread]
    exact List.prefix_append _ _

theorem stamped_stamp {taken : List Message} (htaken : taken <+: queued)
    (htracked : l.tracked = taken.foldl track none) (d : Message) :
    Stamped l.socket l.name queued d (l.stamp d) := by
  refine ⟨taken, htaken, ?_⟩
  rw [Link.stamp, htracked]

/-- An act of the connection tells the lobby at most the next thing that the client said. -/
theorem Hears.act (h : Hears l sent queued ds ms) {taken : List Message}
    (htaken : taken <+: queued) (htracked : l.tracked = taken.foldl track none)
    (hact : l.act now .accepting a = some (l', e)) :
    (∃ ds' m, e = some (.inbound m) ∧ Hears l' sent queued ds' (ms ++ [m])) ∨
      (∀ m, e ≠ some (.inbound m)) ∧ ∃ ds', Hears l' sent queued ds' ms := by
  have hkept {k l' : Link} {ds pongs : List _} (hk : Hears k sent queued ds ms)
      (hown : l'.socket = k.socket ∧ l'.name = k.name) (hr : l'.reader = k.reader)
      (ha : l'.arriving = k.arriving ++ pongs) (hpongs : ∀ g ∈ pongs, g = .pong) :
      Hears l' sent queued ds ms := by
    have hsame := hk.of_eq [] _ hown hr List.prefix_rfl (by rw [ha, List.append_nil]) hpongs
    rwa [List.append_nil] at hsame
  cases Link.does_act hact with
  | stops => exact .inr ⟨by simp, _, h.stopped ⟨rfl, rfl⟩ rfl⟩
  | hears reader arriving said =>
    refine .inr ⟨by simp, _, h.more ?_ reader arriving ?_ ?_ ?_⟩
    · exact ⟨rfl, rfl⟩
    · rw [Inbound.legible, said]
      rfl
    · rfl
    · rw [Inbound.said?, said]
      exact .cons (stamped_stamp htaken htracked _) .nil
  | renews reader arriving probe =>
    refine .inr ⟨by simp, _, h.more ?_ reader arriving ?_ ?_ ?_⟩
    · exact ⟨rfl, rfl⟩
    · obtain rfl | ⟨rfl, -⟩ := probe <;> rfl
    · rfl
    · obtain rfl | ⟨rfl, -⟩ := probe <;> exact .nil
  | tells reader => exact .inl ⟨ds, _, rfl, h.passed ⟨rfl, rfl⟩ reader rfl rfl⟩
  | sends why ships =>
    obtain ⟨_, _, pongs, _, rfl, hpongs, -⟩ := ships.frame
    refine .inr ⟨by simp, ?_⟩
    cases why with
    | @answer _ rest reader arriving =>
      have hread : Hears { l with
          arriving := rest
          reader := .reading (Time.due now now l.timing.read) } sent queued (ds ++ []) ms := by
        refine h.more ?_ reader arriving ?_ ?_ ?_
        exacts [⟨rfl, rfl⟩, rfl, rfl, .nil]
      exact ⟨_, hkept hread ⟨rfl, rfl⟩ rfl rfl hpongs⟩
    | write ready begins => cases begins <;> exact ⟨_, hkept h ⟨rfl, rfl⟩ rfl rfl hpongs⟩
    | flush => exact ⟨_, hkept h ⟨rfl, rfl⟩ rfl rfl hpongs⟩
  | closes why shuts =>
    obtain ⟨_, _, pongs, _, rfl, hpongs, -⟩ := shuts.frame
    obtain ⟨_, _, _, _, _, _, rfl⟩ := why.frame
    exact .inr ⟨by simp, _, hkept h ⟨rfl, rfl⟩ rfl rfl hpongs⟩
  | reports ended unreported event =>
    refine .inr ⟨?_, _, hkept h ⟨rfl, rfl⟩ rfl (List.append_nil _).symm (by simp)⟩
    obtain ⟨-, rfl⟩ | ⟨-, rfl⟩ := event <;> simp
  | _ => exact .inr ⟨by simp, _, hkept h ⟨rfl, rfl⟩ rfl (List.append_nil _).symm (by simp)⟩

theorem Tells.outside (h : r.Tells socket name ms) (ho : r.Outside r') :
    r'.Tells socket name ms where
  own := ⟨ho.identity.socket.trans h.own.1, ho.identity.name.trans h.own.2⟩
  events := by rw [ho.events, ho.reported, h.events]
  ended hended := by
    rw [ho.reader, ho.writer]
    exact h.ended (ho.reported ▸ hended)

theorem Relays.act (h : r.Relays socket name ds ms) (horderly : r.link.Orderly)
    (hstep : r.step (.act a) = some r') : ∃ ds' ms', r'.Relays socket name ds' ms' := by
  have hfollows := h.follows.act hstep
  obtain ⟨l, e, hact, rfl⟩ := step_act hstep
  have hreported : r.link.reported = false := by
    by_contra hover
    obtain ⟨hr, hw⟩ := h.tells.ended (by simpa using hover)
    rw [horderly.over_act hr hw (by simpa using hover)] at hact
    cases hact
  have hsame := Link.identity_act hact
  have hown : l.socket = socket ∧ l.name = name :=
    ⟨hsame.socket.trans h.tells.own.1, hsame.name.trans h.tells.own.2⟩
  have hevents := h.tells.events
  rw [hreported, if_neg Bool.false_ne_true, List.append_nil] at hevents
  obtain ⟨taken, htaken, htracked, -⟩ := h.follows.taken
  obtain ⟨hopen, hquiet⟩ | ⟨hr, hw, -, rfl, rfl, -⟩ := Link.told_act hact
  · have hopen : ¬l.reported := by simp [hopen, hreported]
    obtain ⟨ds', m, rfl, hhears⟩ | ⟨hsilent, ds', hhears⟩ := h.hears.act htaken htracked hact
    · refine ⟨ds', ms ++ [m], hfollows, hhears, hown, ?_, fun hover => (hopen hover).elim⟩
      rw [if_neg hopen]
      simp [hevents]
    · have hnone : e = none := by
        rcases e with - | ⟨m | ⟨name, socket⟩⟩
        · rfl
        · exact (hsilent m rfl).elim
        · exact (hquiet name socket rfl).elim
      refine ⟨ds', ms, hfollows, hhears, hown, ?_, fun hover => (hopen hover).elim⟩
      rw [if_neg hopen, hnone]
      simp [hevents]
  · obtain ⟨ds', m, he, -⟩ | ⟨-, ds', hhears⟩ := h.hears.act htaken htracked hact
    · cases he
    · refine ⟨ds', ms, hfollows, hhears, hown, ?_, fun _ => ⟨hr, hw⟩⟩
      simp [hevents, h.tells.own.1, h.tells.own.2]

theorem Relays.step (h : r.Relays socket name ds ms) (horderly : r.link.Orderly)
    (hstep : r.step mv = some r') : ∃ ds' ms', r'.Relays socket name ds' ms' := by
  cases makes_step hstep with
  | acts => exact h.act horderly hstep
  | outside ne ho =>
    obtain ⟨fs, pongs, hsent, hpongs, harriving⟩ := ho.arrives
    obtain ⟨more, hqueued, -⟩ := ho.queues
    refine ⟨ds, ms, h.follows.outside ho, ?_, h.tells.outside ho⟩
    rw [hsent, hqueued]
    exact h.hears.of_eq fs pongs ⟨ho.identity.socket, ho.identity.name⟩ ho.reader
      (List.prefix_append _ _) harriving hpongs

theorem relays_start (socket : SocketId) (name : String) (t : Timing) (room now : Nat) :
    (start socket name t room now).Relays socket name [] [] where
  follows := ⟨Link.attuned_start socket name t room now { room },
    [], List.prefix_rfl, rfl, List.prefix_rfl, fun _ => ⟨rfl, rfl⟩⟩
  hears := ⟨.nil, List.nil_prefix, fun _ => ⟨[], by simp, rfl, rfl⟩⟩
  tells := ⟨⟨rfl, rfl⟩, rfl, fun h => absurd h (by simp [start, Link.start])⟩

theorem reaches_start (socket : SocketId) (name : String) (t : Timing) (room now : Nat) :
    (start socket name t room now).Reaches where
  orderly := by
    refine ⟨fun hr hs => ?_, nofun⟩
    simp only [start, Link.start] at hr hs
    split at hr <;> simp_all
  still _ := rfl
  received := List.prefix_rfl
  rest _ := List.prefix_rfl
  all _ _ := rfl

theorem Relays.faithful (h : r.Relays socket name ds ms) (hr : r.Reaches) :
    r.Faithful socket name where
  told := by
    refine ⟨ds.take ms.length, ms, (List.take_prefix _ _).trans h.hears.said, ?_, h.tells.events⟩
    have hstamped := List.forall₂_take_append _ _ _ h.hears.stamped
    rwa [h.tells.own.1, h.tells.own.2] at hstamped
  finished := by
    refine ⟨fun hover later _ a => ?_, fun hnone => ?_⟩
    · obtain ⟨hreader, hwriter⟩ := h.tells.ended hover
      exact hr.orderly.over_act hreader hwriter hover later .accepting a
    · by_contra hmore
      obtain ⟨later, a, hle, hact⟩ := Link.exists_act (by simpa using hmore) r.now
      rw [hnone later hle a] at hact
      cases hact
  texts := by
    obtain ⟨taken, htaken, -, htexts, -⟩ := h.follows.taken
    exact htexts.trans htaken
  received := hr.received
  coming := hr.all
  completes d hw hcut hreads := by
    obtain ⟨l, hact, hready, hpending, hmuted⟩ :=
      hr.orderly.completes hw hcut hreads r.now .accepting
    have hstep : r.step (.act .flush) = some _ := congrArg (Option.map _) hact
    have hnone := (hr.step hstep).still hmuted
    refine ⟨_, hstep, hready, ?_⟩
    rw [Link.coming, hnone, hpending]
    rfl

/-- What a connection tells the lobby and its client is what was said, in order, with nothing left
out in between, and it tells its end once, when it has nothing left to do. -/
theorem faithful_run {t : Timing} {room : Nat}
    (hrun : (start socket name t room now).run mvs = some r) : r.Faithful socket name := by
  have hboth : (∃ ds ms, r.Relays socket name ds ms) ∧ r.Reaches := by
    refine run_induction (P := fun r => (∃ ds ms, r.Relays socket name ds ms) ∧ r.Reaches) ?_
      ⟨⟨[], [], relays_start ..⟩, reaches_start ..⟩ hrun
    rintro r r' mv ⟨⟨ds, ms, h⟩, hr⟩ hstep
    exact ⟨h.step hr.orderly hstep, hr.step hstep⟩
  obtain ⟨⟨ds, ms, h⟩, hr⟩ := hboth
  exact h.faithful hr

def visit : List Link.Move :=
  [.send (.data (Text.symbolsOf "[11]")), .act .readFrame, .act .offer,
   .queue (.ofKind .gameInfos), .act .writeNext, .mute, .queue (.ofKind .gameInfos), .act .writeNext,
   .queue (.ofKind .refreshGameBoard), .act .writeNext, .sip 1, .act .flush, .unmute, .send .close,
   .act .readFrame, .act .writeStop, .act .report]

theorem faithful_visit : ∃ r, (start 1 "ann" {} 13 0).run visit = some r ∧
    r.Faithful 1 "ann" ∧ r.events.length = 2 ∧ r.link.reported :=
  ⟨_, rfl, faithful_run (rfl : (start 1 "ann" {} 13 0).run visit = some _), rfl, rfl⟩

end Trace

end TileRace
