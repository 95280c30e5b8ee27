import Mathlib.Data.List.Forall2
import Mathlib.Data.Option.Basic
import TileRace.Connection.Link

namespace TileRace

/-- What is left of a request without the player it names, and without the game unless it is one to
join. -/
def Message.asked (m : Message) : Message :=
  { m with player := none, gameId := if m.kind = .joinGame then m.gameId else none }

/-- Two frames that ask for the same. -/
inductive Inbound.Alike : Inbound → Inbound → Prop where
  | same (f) : Alike f f
  | data {xs ys} (asked : (Message.decode? ys).map Message.asked =
      (Message.decode? xs).map Message.asked) : Alike (.data xs) (.data ys)

section Options

variable {α β : Type} {R : α → β → Prop} {o : Option α} {o' : Option β}

theorem option_ite_rel {p q : Prop} [Decidable p] [Decidable q] (h : q ↔ p)
    (ho : Option.Rel R o o') :
    Option.Rel R (if p then o else none) (if q then o' else none) := by
  by_cases hp : p
  · rwa [if_pos hp, if_pos (h.2 hp)]
  · rw [if_neg hp, if_neg fun hq => hp (h.1 hq)]
    exact .none

theorem option_map_rel {γ δ : Type} {S : γ → δ → Prop} {f : α → γ} {g : β → δ}
    (h : Option.Rel R o o') (hfg : ∀ x y, R x y → S (f x) (g y)) :
    Option.Rel S (o.map f) (o'.map g) := by
  cases h with
  | none => exact .none
  | some hx => exact .some (hfg _ _ hx)

end Options

namespace Link

/-- Two connections that differ only in what is about to be read. -/
inductive Alike (l : Link) : Link → Prop where
  | mk {xs} (frames : List.Forall₂ Inbound.Alike l.arriving xs) : Alike l { l with arriving := xs }

variable {l k : Link} {f f' : Inbound} {xs : List Inbound} {m m' : Message} {now : Nat}

theorem Alike.refl (l : Link) : l.Alike l := .mk (List.forall₂_same.2 fun f _ => .same f)

/-- A request is stamped with what it may not say itself. -/
theorem stamp_asked (l : Link) (m : Message) : l.stamp m.asked = l.stamp m := by
  rw [stamp, stamp, Message.asked]
  by_cases hk : m.kind = .joinGame <;> simp [hk]

theorem stamp_eq (h : m'.asked = m.asked) : l.stamp m' = l.stamp m := by
  rw [← stamp_asked, h, stamp_asked]

theorem kind_eq (h : m'.asked = m.asked) : m'.kind = m.kind :=
  (congrArg Message.kind h :)

theorem alike_letGo (h : l.Alike k) : l.letGo.Alike k.letGo := by
  cases h with
  | mk frames =>
    simp only [letGo]
    split <;> exact .mk frames

theorem alike_stopReading (h : l.Alike k) : l.stopReading.Alike k.stopReading := by
  cases h with
  | mk frames =>
    refine alike_letGo ?_
    exact .mk frames

theorem alike_flush (h : l.Alike k) : l.flush.Alike k.flush := by
  cases h with
  | mk frames => exact .mk (List.rel_append frames (List.forall₂_same.2 fun f _ => .same f))

theorem alike_put (h : l.Alike k) (f : Frame) : (l.put f).Alike (k.put f) := by
  cases h with
  | mk frames =>
    refine alike_flush ?_
    exact .mk frames

theorem alike_beginClose (h : l.Alike k) (now : Nat) :
    (l.beginClose now).Alike (k.beginClose now) := by
  cases h with
  | mk frames =>
    simp only [beginClose]
    split
    · exact .mk frames
    · refine alike_put ?_ _
      exact .mk frames

theorem alike_write (h : l.Alike k) (now : Nat) (f : Frame) :
    (l.write now f).Alike (k.write now f) := by
  have hclose := alike_beginClose h now
  cases h with
  | mk frames =>
    simp only [Link.write]
    split
    · exact hclose
    · refine alike_put ?_ _
      exact .mk frames

theorem alike_idleTick (h : l.Alike k) (now : Nat) :
    (l.idleTick now).Alike (k.idleTick now) := by
  cases h with
  | mk frames =>
    simp only [idleTick]
    split
    · exact .mk frames
    · refine alike_beginClose ?_ now
      exact .mk frames

theorem alike_read (h : l.Alike k) (hf : f.Alike f') (now : Nat) :
    (l.read now f).Alike (k.read now f') := by
  have hstop := alike_stopReading h
  cases h with
  | @mk xs' frames =>
    cases hf with
    | same =>
      cases f with
      | data xs =>
        simp only [Link.read, readData]
        split
        · exact hstop
        · exact .mk frames
      | ping =>
        simp only [Link.read, answerPing]
        split
        · exact .mk frames
        · refine alike_put ?_ _
          exact .mk frames
      | pong => exact .mk frames
      | close =>
        refine alike_stopReading ?_
        exact .mk frames
    | @data xs ys asked =>
      simp only [Link.read, readData]
      cases hx : Message.decode? xs with
      | none =>
        rw [hx, Option.map_none, Option.map_eq_none_iff] at asked
        rw [asked]
        exact hstop
      | some m =>
        rw [hx, Option.map_some] at asked
        obtain ⟨m', hy, hm⟩ := Option.map_eq_some_iff.1 asked
        have hstamp : Link.stamp { l with arriving := xs' } m' = l.stamp m := stamp_eq hm
        rw [hy]
        dsimp only
        rw [hstamp, kind_eq hm]
        exact .mk frames

theorem alike_readFrame (h : l.Alike k) (now : Nat) (intake : Intake) :
    Option.Rel (fun p q => p.1.Alike q.1 ∧ p.2 = q.2) (l.act now intake .readFrame)
      (k.act now intake .readFrame) := by
  cases h with
  | mk frames =>
    cases hr : l.reader with
    | offering | stopped =>
      simp only [act, hr]
      exact .none
    | reading d =>
      cases ha : l.arriving with
      | nil =>
        rw [ha] at frames
        cases frames
        simp only [act, hr, ha]
        exact .none
      | cons f rest =>
        rw [ha] at frames
        cases frames with
        | cons hf hrest =>
          simp only [act, hr, ha]
          refine .some ⟨alike_read ?_ hf now, rfl⟩
          exact .mk hrest

theorem alike_readEnd (h : l.Alike k) (now : Nat) (intake : Intake) :
    Option.Rel (fun p q => p.1.Alike q.1 ∧ p.2 = q.2) (l.act now intake .readEnd)
      (k.act now intake .readEnd) := by
  have hstop := alike_stopReading h
  cases h with
  | mk frames =>
    cases hr : l.reader with
    | offering | stopped =>
      simp only [act, hr]
      exact .none
    | reading d =>
      cases ha : l.arriving with
      | nil =>
        rw [ha] at frames
        cases frames
        simp only [act, hr, ha]
        exact option_ite_rel Iff.rfl (.some ⟨hstop, rfl⟩)
      | cons f rest =>
        rw [ha] at frames
        cases frames
        simp only [act, hr, ha]
        exact .none

theorem alike_act (h : l.Alike k) (now : Nat) (intake : Intake) (a : Act) :
    Option.Rel (fun p q => p.1.Alike q.1 ∧ p.2 = q.2) (l.act now intake a)
      (k.act now intake a) := by
  have hframe := alike_readFrame h now intake
  have hend := alike_readEnd h now intake
  have hstop := alike_stopReading h
  have hclose := alike_beginClose h now
  have hflush := alike_flush h
  cases h with
  | mk frames =>
    cases a with
    | readFrame => exact hframe
    | readEnd => exact hend
    | readStop =>
      refine option_ite_rel Iff.rfl (.some ⟨alike_letGo ?_, rfl⟩)
      exact .mk frames
    | overrun =>
      refine option_ite_rel Iff.rfl (.some ⟨alike_letGo ?_, rfl⟩)
      exact .mk frames
    | flush => exact option_ite_rel Iff.rfl (.some ⟨hflush, rfl⟩)
    | readTimeout =>
      simp only [act]
      split
      · exact option_ite_rel Iff.rfl (.some ⟨hstop, rfl⟩)
      · exact .none
    | offer =>
      simp only [act]
      split
      · exact .some ⟨.mk frames, rfl⟩
      · exact .some ⟨hstop, rfl⟩
      · exact .none
    | writeStop | hangUp => exact option_ite_rel Iff.rfl (.some ⟨hclose, rfl⟩)
    | writeNext =>
      simp only [act]
      split
      · refine .some ⟨alike_write ?_ now _, rfl⟩
        exact .mk frames
      · exact .none
    | sendPing | sendHint =>
      refine option_ite_rel Iff.rfl (.some ⟨alike_write ?_ now _, rfl⟩)
      exact .mk frames
    | checkIdle =>
      exact option_ite_rel Iff.rfl (.some ⟨alike_idleTick (.mk frames) now, rfl⟩)
    | writeTimeout =>
      simp only [act]
      split
      · exact option_ite_rel Iff.rfl (.some ⟨hclose, rfl⟩)
      · exact .none
    | closeTimeout =>
      simp only [act]
      split
      · refine option_ite_rel Iff.rfl (.some ⟨alike_letGo ?_, rfl⟩)
        exact .mk frames
      · exact .none
    | report =>
      refine option_ite_rel Iff.rfl ?_
      cases intake with
      | accepting | shut => exact .some ⟨.mk frames, rfl⟩
      | full => exact .none

theorem close_iff (hf : f.Alike f') : f' = .close ↔ f = .close := by
  cases hf with
  | same => exact Iff.rfl
  | data => exact ⟨nofun, nofun⟩

theorem alike_send (h : l.Alike k) (hf : f.Alike f') : (l.send f).Alike (k.send f') := by
  cases h with
  | mk frames =>
    simp only [send]
    split
    · exact .mk frames
    · simp only [close_iff hf]
      exact .mk (List.rel_append frames (.cons hf .nil))

theorem alike_sip (h : l.Alike k) (n : Nat) : (l.sip n).Alike (k.sip n) := by
  cases h with
  | mk frames => exact .mk (List.rel_append frames (List.forall₂_same.2 fun f _ => .same f))

theorem alike_unmute (h : l.Alike k) : l.unmute.Alike k.unmute := by
  cases h with
  | mk frames => exact .mk (List.rel_append frames (List.forall₂_same.2 fun f _ => .same f))

theorem gone_eq (h : l.Alike k) (hf : f.Alike f') : k.gone f' = l.gone f := by
  cases h with
  | mk => simp only [gone, ended, ne_eq, close_iff hf]

end Link

end TileRace
