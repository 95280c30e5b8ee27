import TileRace.Proofs.Connection.Acts

namespace TileRace.Link

/-- A connection takes messages until its writer begins to close. -/
def Attuned (l : Link) : Prop := l.accepting = !l.writer.over

/-- `l'` is `l` after some time in which nothing was queued or written. What is queued stays so as
long as the connection takes messages at all. -/
structure SameQueue (l l' : Link) : Prop where
  socket : l'.socket = l.socket
  tracked : l'.tracked = l.tracked
  queue : l'.accepting → l.accepting ∧ l'.queue = l.queue

/-- `l'` is `l` after something that concerns neither the reader nor the writer. -/
structure SameHalves (l l' : Link) : Prop where
  socket : l'.socket = l.socket
  reader : l'.reader = l.reader
  tracked : l'.tracked = l.tracked
  accepting : l'.accepting = l.accepting
  queue : l'.queue = l.queue
  writer : l'.writer = l.writer

/-- `l'` is `l` after some time in which the lobby sent nothing to it. Where the client is once all
is written does not change, as long as the connection takes messages at all. -/
structure SameGame (l l' : Link) : Prop where
  socket : l'.socket = l.socket
  track : l'.accepting → l.accepting ∧
    l'.queue.foldl TileRace.track l'.tracked = l.queue.foldl TileRace.track l.tracked

variable {l l' : Link} {now : Nat} {intake : Intake} {a : Act} {e : Option Event} {fs : List Frame}

theorem attuned_start (socket : SocketId) (name : String) (t : Timing) (room now : Nat)
    (client : Client) : Attuned { start socket name t room now with client } := by
  rw [Attuned, start]
  dsimp only
  split <;> rename_i h
  · exact h
  · exact Bool.eq_false_iff.2 h

theorem Ships.attuned (h : l.Ships fs l') (hl : l.Attuned) : l'.Attuned := by
  obtain ⟨_, _, _, writer, rfl, -, rfl | rfl⟩ := h.frame
  · exact hl
  · rw [Attuned, Writer.over_done]
    exact hl

theorem attuned_act (hl : l.Attuned) (h : l.act now intake a = some (l', e)) : l'.Attuned := by
  have hready (hw : l.writer = .ready) : l.accepting = true := by rw [hl, hw]; rfl
  cases does_act h with
  | sends why ships =>
    refine ships.attuned ?_
    cases why with
    | write ready begins => cases begins <;> exact hready ready
    | _ => exact hl
  | closes why shuts =>
    obtain ⟨_, _, _, _, rfl, -, hover⟩ := shuts.frame
    exact (congrArg not hover).symm
  | fails => rfl
  | gives closing => rw [Attuned, hl, closing]; rfl
  | _ => exact hl

theorem stopped_act (h : l.act now intake a = some (l', e)) (hw : l.writer = .stopped) :
    l'.writer = .stopped := by
  cases does_act h with
  | sends why ships =>
    obtain ⟨_, _, _, _, rfl, -, rfl | rfl⟩ := ships.frame
    all_goals cases why with
      | write ready => cases ready.symm.trans hw
      | answer | flush => simp [hw, Writer.done]
  | closes why shuts =>
    cases why with
    | told ready | done ready | idle ready | lost ready => cases ready.symm.trans hw
    | stuck writing => cases writing.symm.trans hw
  | fails | gives => rfl
  | _ => exact hw

theorem act_writeNext (h : l.act now intake .writeNext = some (l', e)) : ∃ m rest,
    l.writer = .ready ∧ l.queue = m :: rest ∧
      SameQueue { l with queue := rest, tracked := TileRace.track l.tracked m } l' := by
  cases does_act h with
  | stops why => cases why
  | sends why ships =>
    obtain ⟨_, _, _, _, rfl, -⟩ := ships.frame
    cases why with
    | write ready begins =>
      cases begins with
      | next queue => exact ⟨_, _, ready, queue, rfl, rfl, fun ha => ⟨ha, rfl⟩⟩
  | closes why shuts =>
    obtain ⟨_, _, _, _, rfl, -⟩ := shuts.frame
    cases why with
    | lost ready begins =>
      cases begins with
      | next queue => exact ⟨_, _, ready, queue, rfl, rfl, nofun⟩

theorem sameQueue_act (ha : a ≠ .writeNext) (h : l.act now intake a = some (l', e)) :
    l.SameQueue l' := by
  cases does_act h with
  | sends why ships =>
    obtain ⟨_, _, _, _, rfl, -⟩ := ships.frame
    cases why with
    | write ready begins =>
      cases begins with
      | next => exact (ha rfl).elim
      | ping | hint => exact ⟨rfl, rfl, fun ha => ⟨ha, rfl⟩⟩
    | answer | flush => exact ⟨rfl, rfl, fun ha => ⟨ha, rfl⟩⟩
  | closes why shuts =>
    obtain ⟨_, _, _, _, rfl, -⟩ := shuts.frame
    cases why with
    | lost ready begins =>
      cases begins with
      | next => exact (ha rfl).elim
      | ping | hint => exact ⟨rfl, rfl, nofun⟩
    | _ => exact ⟨rfl, rfl, nofun⟩
  | fails => exact ⟨rfl, rfl, nofun⟩
  | _ => exact ⟨rfl, rfl, fun ha => ⟨ha, rfl⟩⟩

theorem SameHalves.refl (l : Link) : l.SameHalves l := ⟨rfl, rfl, rfl, rfl, rfl, rfl⟩

theorem SameHalves.sameQueue (h : l.SameHalves l') : l.SameQueue l' where
  socket := h.socket
  tracked := h.tracked
  queue ha := ⟨h.accepting ▸ ha, h.queue⟩

theorem SameHalves.attuned (h : l.SameHalves l') (hl : l.Attuned) : l'.Attuned := by
  rw [Attuned, h.accepting, h.writer]
  exact hl

theorem sameHalves_send (l : Link) (f : Inbound) : l.SameHalves (l.send f) := by
  rw [send]
  split <;> exact ⟨rfl, rfl, rfl, rfl, rfl, rfl⟩

theorem SameQueue.sameGame (h : l.SameQueue l') : l.SameGame l' where
  socket := h.socket
  track ha := by
    obtain ⟨ha, hq⟩ := h.queue ha
    exact ⟨ha, by rw [hq, h.tracked]⟩

theorem SameGame.refl (l : Link) : l.SameGame l := (SameHalves.refl l).sameQueue.sameGame

theorem sameGame_act (h : l.act now intake a = some (l', e)) : l.SameGame l' := by
  by_cases ha : a = .writeNext
  · subst ha
    obtain ⟨m, rest, -, hq, hsame⟩ := act_writeNext h
    refine ⟨hsame.socket, fun ha => ?_⟩
    obtain ⟨ha, htrack⟩ := hsame.sameGame.track ha
    exact ⟨ha, by rw [htrack, hq]; rfl⟩
  · exact (sameQueue_act ha h).sameGame

def offer? (l : Link) : Option Message := match l.reader with
  | .offering m => some m
  | _ => none

/-- What the client says in the frame that is read next. -/
def reading? (l : Link) : Option Message := match l.reader, l.arriving with
  | .reading _, .data xs :: _ => Message.decode? xs
  | _, _ => none

/-- What an act does with the request that waits. -/
inductive Reads (intake : Intake) (l : Link) (a : Act) (l' : Link) (e : Option Event) : Prop where
  | read (act : a = .readFrame) (before : l.offer? = none)
    (after : l'.offer? = l.reading?.map l.stamp) (quiet : e = none)
  | offered {m} (act : a = .offer) (before : l.offer? = some m) (after : l'.offer? = none)
    (event : e = if intake = .accepting then some (.inbound m) else none)
  | stopped (act : a = .readStop) (after : l'.offer? = none) (quiet : e = none)
  | kept (read : a ≠ .readFrame) (offer : a ≠ .offer) (stop : a ≠ .readStop)
    (same : l'.offer? = l.offer?) (quiet : ∀ m, e ≠ some (.inbound m))

theorem offer?_congr (h : l'.reader = l.reader) : l'.offer? = l.offer? := by
  rw [offer?, h, offer?]

theorem offer?_reading {d : Nat} (h : l.reader = .reading d) : l.offer? = none := by
  rw [offer?, h]

theorem reads_act (h : l.act now intake a = some (l', e)) : l.Reads intake a l' e := by
  cases does_act h with
  | stops why =>
    cases why with
    | told => exact .stopped rfl rfl rfl
    | bad reader arriving bad =>
      refine .read rfl (offer?_reading reader) ?_ rfl
      rw [reading?, reader, arriving]
      dsimp only
      rw [bad]
      rfl
    | leaves reader arriving =>
      refine .read rfl (offer?_reading reader) ?_ rfl
      rw [reading?, reader, arriving]
      rfl
    | cut reader | silent reader =>
      exact .kept nofun nofun nofun (offer?_reading reader).symm (by simp)
    | @shut m reader shut =>
      exact .offered rfl (by rw [offer?, reader]) rfl (if_neg (by simp [shut])).symm
  | hears reader arriving said =>
    refine .read rfl (offer?_reading reader) ?_ rfl
    rw [reading?, reader, arriving]
    dsimp only
    rw [said]
    rfl
  | renews reader arriving probe =>
    refine .read rfl (offer?_reading reader) ?_ rfl
    rw [reading?, reader, arriving]
    obtain rfl | ⟨rfl, -⟩ := probe <;> rfl
  | tells reader takes => exact .offered rfl (by rw [offer?, reader]) rfl (if_pos takes).symm
  | sends why ships =>
    obtain ⟨_, _, _, _, rfl, -⟩ := ships.frame
    cases why with
    | answer reader arriving =>
      refine .read rfl (offer?_reading reader) ?_ rfl
      rw [reading?, reader, arriving]
      rfl
    | write ready begins => cases begins <;> exact .kept nofun nofun nofun rfl (by simp)
    | flush => exact .kept nofun nofun nofun rfl (by simp)
  | closes why shuts =>
    obtain ⟨_, _, _, _, rfl, -⟩ := shuts.frame
    cases why with
    | lost ready begins => cases begins <;> exact .kept nofun nofun nofun rfl (by simp)
    | _ => exact .kept nofun nofun nofun rfl (by simp)
  | reports ended unreported event =>
    refine .kept nofun nofun nofun rfl ?_
    obtain ⟨-, rfl⟩ | ⟨-, rfl⟩ := event <;> simp
  | _ => exact .kept nofun nofun nofun rfl (by simp)

end TileRace.Link
