import TileRace.Proofs.Server.Admission

namespace TileRace.Server

/-- All that the client of a line receives in a run. -/
def received (s : Server) (i : Nat) : List Move → List Frame
  | [] => s.unread i
  | mv :: mvs => match s.move mv with
    | some s' => (if mv = .look then s.unread i else []) ++ s'.received i mvs
    | none => s.unread i

/-- What a client sees that is turned away: the lobby says why, and others only see the end. -/
inductive Told : LobbyError → List Frame → Prop where
  | unnamed : Told .missingPlayerName [.closed]
  | closed : Told .closed [.closed]
  | full (max) : Told (.tooManySockets max) (dismissal (.tooManySockets max))
  | many (name max) :
    Told (.tooManyPlayerSockets name max) (dismissal (.tooManyPlayerSockets name max))

/-- A client that reads and has seen nothing yet. -/
structure Pristine (c : Client) : Prop where
  muted : c.muted = false
  finished : c.finished = false
  unread : c.unread = []

/-- What a line must look like now, if its client is turned away for `e` later on and receives
`fs` from now on. -/
def Foretells (e : LobbyError) (fs : List Frame) : Option Line → Prop
  | none => Told e fs
  | some (.waiting _ c) => Pristine c → Told e fs
  | some (.refused e' c) => e' = e ∧ fs = c.unread
  | some (.opened _) => False

variable {s s' : Server} {mv : Move} {mvs : List Move} {i : Nat} {name : String} {c : Client}
  {e : LobbyError} {fs : List Frame}

theorem Told.eq_dismissal_iff (h : Told e fs) :
    (fs = dismissal e ↔ e ≠ .missingPlayerName ∧ e ≠ .closed) ∧
      (e = .missingPlayerName ∨ e = .closed → fs = [.closed]) := by
  cases h with
  | unnamed | closed => simp [dismissal]
  | full | many => simp

theorem told_of_checkLimits {l : Lobby} (h : l.checkLimits name = .error e) :
    Told e (dismissal e) := by
  rw [Lobby.checkLimits] at h
  split at h
  · exact Except.error.inj h ▸ .full _
  · split at h
    · exact Except.error.inj h ▸ .many _ _
    · cases h

theorem unread_turnAway_closed (h : Pristine c) : (turnAway c [.closed]).unread = [.closed] := by
  simp [turnAway, Client.receive, h.muted, h.finished, h.unread]

theorem unread_turnAway_dismissal (h : Pristine c) :
    (turnAway c (dismissal e)).unread = dismissal e := by
  simp [turnAway, dismissal, Client.receive, h.muted, h.finished, h.unread]

theorem pristine_room (room : Nat) : Pristine { room := room } := ⟨rfl, rfl, rfl⟩

theorem Pristine.look (h : Pristine c) : Pristine { c with unread := [] } :=
  ⟨h.muted, h.finished, rfl⟩

theorem received_cons (h : s.move mv = some s') : s.received i (mv :: mvs) =
    (if mv = .look then s.unread i else []) ++ s'.received i mvs := by
  rw [received, h]

theorem foretells_move (h : s.move mv = some s') (hf : Foretells e fs s'.lines[i]?) :
    Foretells e ((if mv = .look then s.unread i else []) ++ fs) s.lines[i]? := by
  have hatt := attends_move h i
  have hunread := @unread_of_line s i
  have hnone := @unread_of_none s i
  generalize s.lines[i]? = o, s'.lines[i]? = o' at hatt hf hunread hnone
  cases hatt with
  | kept look => rwa [if_neg look]
  | linked | queued => exact hf
  | absent =>
    rw [hnone rfl, ite_self]
    exact hf
  | @looked x move =>
    rw [if_pos move, hunread rfl]
    cases x with
    | waiting name c =>
      intro hc
      rw [lookLine, hc.unread]
      exact hf hc.look
    | refused e' c =>
      obtain ⟨rfl, rfl⟩ := hf
      exact ⟨rfl, List.append_nil _⟩
    | opened l => exact hf
  | asked move =>
    rw [if_neg (by simp [move])]
    exact hf (pristine_room _)
  | turned move why =>
    obtain ⟨rfl, rfl⟩ := hf
    rw [if_neg (by simp [move]), List.nil_append, unread_turnAway_closed (pristine_room _)]
    obtain ⟨rfl, -⟩ | rfl := why
    · exact .unnamed
    · exact .closed
  | admitted => exact hf.elim
  | refused move next limits =>
    obtain ⟨rfl, rfl⟩ := hf
    intro hc
    rw [if_neg (by simp [move]), List.nil_append, unread_turnAway_dismissal hc]
    exact told_of_checkLimits limits
  | stopped move =>
    obtain ⟨rfl, rfl⟩ := hf
    intro hc
    rw [if_neg (by simp [move]), List.nil_append, unread_turnAway_closed hc]
    exact .closed

theorem foretells_run (hrun : s.run mvs = some s') (h : s'.refusal? i = some e) :
    Foretells e (s.received i mvs) s.lines[i]? := by
  induction mvs generalizing s with
  | nil =>
    obtain rfl := Option.some.inj hrun
    rw [refusal?] at h
    split at h
    · rename_i e' c hi
      rw [received, unread_of_line hi, hi]
      exact ⟨Option.some.inj h, rfl⟩
    · cases h
  | cons mv mvs ih =>
    obtain ⟨t, ht, hrun⟩ := run_cons.1 hrun
    rw [received_cons ht]
    exact foretells_move ht (ih hrun)

/-- A client that the lobby turns away for its limits sees the reason and then the end, and nothing
else. A client without a name, or one that comes when the lobby is closed, sees only the end. -/
theorem refusal_told {s₀ : Server} (h₀ : s₀.Fresh) (hrun : s₀.run mvs = some s)
    (h : s.refusal? i = some e) :
    (s₀.received i mvs = dismissal e ↔ e ≠ .missingPlayerName ∧ e ≠ .closed) ∧
    (e = .missingPlayerName ∨ e = .closed → s₀.received i mvs = [.closed]) := by
  have htold := foretells_run hrun h
  rw [h₀.lines] at htold
  exact Told.eq_dismissal_iff htold

theorem refusal_told_crowding : ∃ s, narrow.Fresh ∧
    narrow.run (crowding ++ [.look, .act .enroll]) = some s ∧
    s.refusal? 1 = some (.tooManySockets 1) ∧
    narrow.received 1 (crowding ++ [.look, .act .enroll]) = dismissal (.tooManySockets 1) := by
  have h₀ : narrow.Fresh := ⟨rfl, rfl, rfl, rfl, rfl, rfl, rfl, rfl, rfl, rfl⟩
  have hrun : narrow.run (crowding ++ [.look, .act .enroll]) = some _ := rfl
  exact ⟨_, h₀, hrun, rfl,
    (refusal_told h₀ hrun (i := 1) (e := .tooManySockets 1) rfl).1.2 ⟨nofun, nofun⟩⟩

/-- Nobody tells a client that its name is missing. -/
theorem unnamed_untold : ∃ s, vacant.run [.connect " "] = some s ∧ s.closed = false ∧
    s.refusal? 0 = some .missingPlayerName ∧
    vacant.received 0 [.connect " "] ≠ dismissal .missingPlayerName :=
  ⟨_, rfl, rfl, rfl, by decide⟩

end TileRace.Server
