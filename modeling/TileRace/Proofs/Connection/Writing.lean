import Mathlib.Tactic.Tauto
import TileRace.Proofs.Connection.Link

namespace TileRace

def Frame.message? : Frame → Option Message
  | .message m => some m
  | _ => none

namespace Client

def frames (c : Client) : List Frame := c.unread ++ c.transit

variable {c c' : Client} {f g : Frame} {fs : List Frame} {m : Message}

theorem mem_filterMap_message? : m ∈ fs.filterMap Frame.message? ↔ .message m ∈ fs := by
  rw [List.mem_filterMap]
  constructor
  · rintro ⟨f, hf, hm⟩
    cases f with
    | message m' => exact Option.some.inj hm ▸ hf
    | ping | pong | closed => cases hm
  · exact fun h => ⟨_, h, rfl⟩

theorem mem_receive (h : g ∈ (c.receive f).unread) : g ∈ c.unread ∨ g = f := by
  rw [receive] at h
  split at h
  · exact .inl h
  · exact (List.mem_append.1 h).imp_right List.mem_singleton.1

theorem mem_foldl_receive (h : g ∈ (fs.foldl receive c).unread) : g ∈ c.unread ∨ g ∈ fs := by
  induction fs generalizing c with
  | nil => exact .inl h
  | cons f fs ih =>
    obtain h | h := ih h
    · obtain h | rfl := mem_receive h
      · exact .inl h
      · exact .inr List.mem_cons_self
    · exact .inr (List.mem_cons_of_mem f h)

theorem mem_frames_receives (h : g ∈ (fs.foldl receive c).frames) : g ∈ c.frames ∨ g ∈ fs := by
  obtain h | h := List.mem_append.1 h
  · exact (mem_foldl_receive h).imp_left (List.mem_append_left _)
  · obtain ⟨unread, finished, hfs, -⟩ := foldl_receive_eq c fs
    rw [hfs] at h
    exact .inl (List.mem_append_right _ h)

theorem frames_look (c : Client) : { c with unread := [] }.frames ⊆ c.frames :=
  List.subset_append_right _ _

theorem Carries.mem (h : c.Carries fs c') (hg : g ∈ c'.frames) : g ∈ c.frames ∨ g ∈ fs := by
  cases h with
  | held => rwa [frames, ← List.append_assoc, List.mem_append] at hg
  | read => exact mem_frames_receives hg

theorem Carries.finished (h : c.Carries (fs ++ [.closed]) c') (hreads : c.muted = false) :
    c'.finished := by
  cases h with
  | held muted => cases hreads.symm.trans muted
  | read =>
    rw [List.foldl_append, List.foldl_cons, List.foldl_nil, receive]
    split
    · exact ‹_›
    · rfl

end Client

namespace Link

def frames (l : Link) : List Frame := l.client.frames ++ l.pending.map (·.1)

/-- The messages that are queued for a client, are on the way to it, or have reached it. -/
def outgoing (l : Link) : List Message := l.queue ++ l.frames.filterMap Frame.message?

/-- `l'` is `l` after some time in which nothing was queued. The client is shown what was queued,
or a hint that the connection is open. -/
structure NothingQueued (l l' : Link) : Prop where
  socket : l'.socket = l.socket
  name : l'.name = l.name
  stopped : l.writer = .stopped → l'.writer = .stopped
  outgoing : ∀ m ∈ l'.outgoing, m ∈ l.outgoing ∨ m = .ofKind .socketHttpPing

/-- The connection is closed: nothing is sent any more, and a client that reads has been told. -/
structure Closing (l : Link) : Prop where
  cancelled : l.cancelled
  accepting : l.accepting = false
  queue : l.queue = []
  writer : l.writer = .stopped ∨ ∃ d, l.writer = .closing d
  told : l.client.muted = false → l.client.finished

variable {l l' k : Link} {m : Message} {now : Nat} {intake : Intake} {a : Act} {e : Option Event}
  {fs : List Frame} {c : Client} {p : Prop} {g : Frame}

theorem mem_outgoing : m ∈ l.outgoing ↔ m ∈ l.queue ∨ .message m ∈ l.frames := by
  rw [outgoing, List.mem_append, Client.mem_filterMap_message?]

theorem Ships.mem_frames (h : l.Ships fs l') (hg : g ∈ l'.frames) : g ∈ l.frames ∨ g ∈ fs := by
  cases h with
  | @mk sent pending client frames carries all =>
    have hframes : g ∈ sent ∨ g ∈ pending.map (·.1) → g ∈ l.pending.map (·.1) ∨ g ∈ fs := by
      rw [← List.mem_append, ← List.mem_append, frames]
      exact id
    have hold : g ∈ l.pending.map (·.1) ∨ g ∈ fs → g ∈ l.frames ∨ g ∈ fs :=
      Or.imp_left (List.mem_append_right _)
    obtain hg | hg := List.mem_append.1 hg
    · obtain hg | hg := carries.mem hg
      · exact .inl (List.mem_append_left _ hg)
      · exact hold (hframes (.inl hg))
    · exact hold (hframes (.inr hg))

theorem LetsGo.mem {c' : Client} {ps ps' : List (Frame × Nat)} (h : LetsGo c ps p c' ps')
    (hg : g ∈ c'.frames ++ ps'.map (·.1)) : g ∈ c.frames ++ ps.map (·.1) ∨ g = .closed := by
  cases h with
  | kept => exact .inl hg
  | gone stopped carries =>
    rw [List.map_nil, List.append_nil] at hg
    exact (carries.mem hg).imp (List.mem_append_left _) List.mem_singleton.1

theorem Shuts.mem_frames (h : l.Shuts now l') (hg : g ∈ l'.frames) :
    g ∈ l.frames ∨ g = .closed := by
  cases h with
  | lost cut told =>
    rw [frames, List.map_nil, List.append_nil] at hg
    exact (told.mem hg).imp (List.mem_append_left _) List.mem_singleton.1
  | said whole ships => exact (ships.mem_frames hg).imp_right List.mem_singleton.1

theorem NothingQueued.of_eq (hs : l'.socket = l.socket) (hn : l'.name = l.name)
    (hw : l'.writer = l.writer) (hq : l'.queue = l.queue) (hf : l'.frames ⊆ l.frames) :
    l.NothingQueued l' where
  socket := hs
  name := hn
  stopped h := hw.trans h
  outgoing m hm := by
    rw [mem_outgoing, hq] at hm
    exact .inl (mem_outgoing.2 (hm.imp_right (hf ·)))

theorem NothingQueued.trans {l'' : Link} (h : l.NothingQueued l') (h' : l'.NothingQueued l'') :
    l.NothingQueued l'' where
  socket := h'.socket.trans h.socket
  name := h'.name.trans h.name
  stopped hw := h'.stopped (h.stopped hw)
  outgoing m hm := by
    obtain hm | hm := h'.outgoing m hm
    · exact h.outgoing m hm
    · exact .inr hm

theorem queue_act (h : l.act now intake a = some (l', e)) : l'.queue ⊆ l.queue := by
  cases does_act h with
  | sends why ships =>
    obtain ⟨_, _, _, _, rfl, -⟩ := ships.frame
    cases why with
    | write ready begins =>
      cases begins with
      | next queue => exact queue ▸ List.subset_cons_self _ _
      | ping | hint => exact List.Subset.refl _
    | answer | flush => exact List.Subset.refl _
  | closes why shuts =>
    obtain ⟨_, _, _, _, rfl, -⟩ := shuts.frame
    exact List.nil_subset _
  | fails => exact List.nil_subset _
  | _ => exact List.Subset.refl _

theorem Sends.mem_queue (h : l.Sends now a fs k) (hm : .message m ∈ fs) :
    m ∈ l.queue ∨ m = .ofKind .socketHttpPing := by
  cases h with
  | answer | flush => simp at hm
  | write ready begins =>
    have hf := List.mem_singleton.1 hm
    cases begins with
    | next queue => exact .inl (queue ▸ Frame.message.inj hf ▸ List.mem_cons_self)
    | ping => cases hf
    | hint => exact .inr (Frame.message.inj hf)

theorem mem_frames_act (h : l.act now intake a = some (l', e)) (hm : .message m ∈ l'.frames) :
    .message m ∈ l.frames ∨ m ∈ l.queue ∨ m = .ofKind .socketHttpPing := by
  cases does_act h with
  | sends why ships =>
    refine (ships.mem_frames hm).imp (fun hm => ?_) why.mem_queue
    obtain ⟨_, _, _, _, _, _, _, _, rfl⟩ := why.frame
    exact hm
  | closes why shuts =>
    have hm := (shuts.mem_frames hm).resolve_right (by simp)
    obtain ⟨_, _, _, _, _, _, rfl⟩ := why.frame
    exact .inl hm
  | stops why letsGo | fails ready overruns letsGo =>
    exact .inl ((letsGo.mem hm).resolve_right (by simp))
  | gives closing late letsGo =>
    have hm := (letsGo.mem hm).resolve_right (by simp)
    rw [List.map_nil, List.append_nil] at hm
    exact .inl (List.mem_append_left _ hm)
  | _ => exact .inl hm

theorem nothingQueued_act (h : l.act now intake a = some (l', e)) : l.NothingQueued l' where
  socket := (identity_act h).socket
  name := (identity_act h).name
  stopped := stopped_act h
  outgoing m hm := by
    rw [mem_outgoing] at hm ⊢
    obtain hm | hm := hm
    · exact .inl (.inl (queue_act h hm))
    · have := mem_frames_act h hm
      tauto

theorem closed_act {name : String} {socket : SocketId}
    (h : l.act now intake a = some (l', some (.closed name socket))) :
    l'.name = name ∧ l'.socket = socket ∧ l'.writer = .stopped := by
  obtain ⟨-, hquiet⟩ | ⟨-, hw, -, rfl, he, -⟩ := told_act h
  · exact (hquiet name socket rfl).elim
  · split at he
    · obtain ⟨rfl, rfl⟩ := Event.closed.inj (Option.some.inj he)
      exact ⟨rfl, rfl, hw⟩
    · cases he

theorem nothingQueued_send (l : Link) (f : Inbound) : l.NothingQueued (l.send f) := by
  rw [send]
  split <;> exact .of_eq rfl rfl rfl rfl fun _ => id

theorem nothingQueued_look (l : Link) : l.NothingQueued l.look.2 := by
  refine .of_eq rfl rfl rfl rfl fun f hf => ?_
  exact List.mem_append.2 ((List.mem_append.1 hf).imp_left (l.client.frames_look ·))

theorem mem_sip (n : Nat) (hg : g ∈ (c.sip n).frames) : g ∈ c.frames := by
  obtain hg | hg := Client.mem_frames_receives hg
  · exact List.mem_append.2 ((List.mem_append.1 hg).imp_right (List.drop_subset _ _ ·))
  · exact List.mem_append_right _ (List.take_subset _ _ hg)

theorem nothingQueued_sip (l : Link) (n : Nat) : l.NothingQueued (l.sip n) := by
  refine .of_eq rfl rfl rfl rfl fun f hf => ?_
  exact List.mem_append.2 ((List.mem_append.1 hf).imp_left (mem_sip n))

theorem nothingQueued_unmute (l : Link) : l.NothingQueued l.unmute :=
  (l.nothingQueued_sip _).trans (.of_eq rfl rfl rfl rfl fun _ => id)

theorem Shuts.told (h : l.Shuts now l') (hreads : l.client.muted = false) :
    l'.client.finished := by
  cases h with
  | lost cut told =>
    have htold : l.client.Carries ([] ++ [.closed]) _ := told
    exact htold.finished hreads
  | said whole ships =>
    cases ships with
    | mk frames carries all =>
      rw [all hreads, List.map_nil, List.append_nil] at frames
      exact (frames ▸ carries).finished hreads

theorem Shuts.muted (h : l.Shuts now l') : l'.client.muted = l.client.muted := by
  cases h with
  | lost cut told => exact told.keeps.1
  | said whole ships =>
    cases ships with
    | mk frames carries => exact carries.keeps.1

theorem Shuts.closing (h : l.Shuts now l') : l'.Closing := by
  have hmuted := h.muted
  have htold := h.told
  obtain ⟨client, pending, pongs, writer, rfl, -, hover⟩ := h.frame
  refine ⟨rfl, rfl, rfl, ?_, fun hm => htold (hmuted.symm.trans hm)⟩
  cases writer with
  | ready | writing => cases hover
  | closing d => exact .inr ⟨d, rfl⟩
  | stopped => exact .inl rfl

theorem closing_beginClose (l : Link) (now : Nat) : (l.beginClose now).Closing :=
  (l.shuts_beginClose now).closing

end Link

end TileRace
