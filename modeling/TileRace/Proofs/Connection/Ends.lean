import TileRace.Proofs.Connection.Writing

namespace TileRace.Link

/-- The act with which a connection ends: its client sends what cannot be decoded or says that it is
leaving, the connection is cut, the client is silent or does not read for too long, or there was no
traffic. -/
inductive Ends (l : Link) : Act → Prop where
  | undecodable {deadline xs rest} (reading : l.reader = .reading deadline)
    (next : l.arriving = .data xs :: rest) (bad : Message.decode? xs = none) : Ends l .readFrame
  | closed {deadline rest} (reading : l.reader = .reading deadline)
    (next : l.arriving = .close :: rest) : Ends l .readFrame
  | cut : Ends l .readEnd
  | broken {a} (cut : l.cut) (writes : a = .writeNext ∨ a = .sendPing ∨ a = .sendHint) : Ends l a
  | silent : Ends l .readTimeout
  | stuck : Ends l .writeTimeout
  | idle (quiet : l.wrote = false ∧ l.heard = false) : Ends l .checkIdle

variable {l l' : Link} {now : Nat} {intake : Intake} {a : Act} {e : Option Event}

theorem Ends.cancelled (h : l.Ends a) (hact : l.act now intake a = some (l', e)) :
    l'.cancelled ∧ e = none := by
  cases does_act hact with
  | stops => exact ⟨rfl, rfl⟩
  | closes why shuts => exact ⟨shuts.closing.cancelled, rfl⟩
  -- whatever else a connection does, it does not do it for one of these reasons
  | hears reader arriving said => cases h <;> simp_all
  | renews reader arriving probe =>
    obtain rfl | ⟨rfl, -⟩ := probe
    all_goals cases h <;> simp_all
  | sends why =>
    cases why with
    | answer reader arriving whole => cases h <;> simp_all
    | write ready begins whole => cases begins <;> cases h <;> simp_all
    | flush => cases h; simp_all
  | stays ready due busy => cases h <;> simp_all
  | tells | fails | gives | reports => cases h; simp_all

end TileRace.Link
