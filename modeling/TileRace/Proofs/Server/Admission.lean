import TileRace.Proofs.Server.Registration

namespace TileRace

structure Register.Within (r : Register) : Prop where
  total : r.names.size ≤ r.maxSockets.toNat
  each : ∀ name, r.names.values.count name ≤ r.maxPlayerSockets.toNat
  known : ∀ k, r.names.contains k → k ≤ r.last

namespace Lobby

variable {l l' : Lobby} {name : String}

def nameOf (l : Lobby) (k : SocketId) : Option String := (l.guests.get? k).map (·.name)

theorem nameOf_eq (l : Lobby) (k : SocketId) : l.nameOf k = l.register.names.get? k :=
  (l.get?_names k).symm

theorem guestsNamed_eq_count (l : Lobby) (name : String) :
    l.guestsNamed name = l.register.names.values.count name := by
  rw [guestsNamed_eq, List.count, List.countP_eq_length_filter]
  rfl

end Lobby

namespace Server

def waits? (s : Server) (i : Nat) : Option String := match s.lines[i]? with
  | some (.waiting name _) => some name
  | _ => none

def refusal? (s : Server) (i : Nat) : Option LobbyError := match s.lines[i]? with
  | some (.refused e _) => some e
  | _ => none

/-- The number that a client gets when it is let in. -/
def admitted? (s : Server) (mv : Move) (s' : Server) : Option SocketId := match mv with
  | .act .enroll => s.requests.head?.bind fun i => (s'.link? i).map (·.socket)
  | _ => none

def admissions (s : Server) : List Move → List SocketId
  | [] => []
  | mv :: mvs => match s.move mv with
    | some s' => (s.admitted? mv s').toList ++ s'.admissions mvs
    | none => []

structure Decides (s : Server) (i : Nat) (name : String) (s' : Server) : Prop where
  admitted_iff : (s'.link? i).isSome ↔ s.lobby.guests.size < s.lobby.maxSockets.toNat ∧
    s.lobby.guestsNamed name < s.lobby.maxPlayerSockets.toNat
  full : s.lobby.maxSockets.toNat ≤ s.lobby.guests.size →
    s'.refusal? i = some (.tooManySockets s.lobby.maxSockets)
  many : s.lobby.guests.size < s.lobby.maxSockets.toNat →
    s.lobby.maxPlayerSockets.toNat ≤ s.lobby.guestsNamed name →
    s'.refusal? i = some (.tooManyPlayerSockets name s.lobby.maxPlayerSockets)
  entered : ∀ l, s'.link? i = some l → l.name = name ∧ s.lobby.nameOf l.socket = none ∧
    ∀ k, s'.lobby.nameOf k = if k = l.socket then some name else s.lobby.nameOf k
  unchanged : s'.link? i = none → s'.lobby = s.lobby

/-- What a move does to those who want to be let in and those who are. -/
structure Admits (s : Server) (mv : Move) (s' : Server) : Prop where
  asks : ∀ name, mv = .connect name → s'.lobby = s.lobby ∧
    (Lobby.isNamed name → s.closed = false → s'.waits? s.lines.length = some name)
  waits : ∀ i name, s.waits? i = some name → Lobby.isNamed name ∧ i ∈ s.requests ∧
    (s'.waits? i = some name ∨ mv = .act .enroll ∧ s.requests.head? = some i ∨ mv = .act .stop)
  decides : mv = .act .enroll → ∃ i name, s.requests = i :: s'.requests ∧
    s.waits? i = some name ∧ s.Decides i name s'
  enters : ∀ k, s.lobby.nameOf k = none → s'.lobby.nameOf k ≠ none → s.admitted? mv s' = some k
  frees : ∀ k name, s.lobby.nameOf k = some name →
    (s'.lobby.nameOf k = none ↔ ∃ x rest, mv = .act .hear ∧ s.events = .closed x k :: rest)
  stays : ∀ k name, s.lobby.nameOf k = some name → s'.lobby.nameOf k ≠ none →
    s'.lobby.nameOf k = some name

variable {s s' : Server} {mv : Move} {mvs : List Move} {i : Nat} {name : String} {client : Client}

theorem waits?_eq_some :
    s.waits? i = some name ↔ ∃ client, s.lines[i]? = some (.waiting name client) := by
  rw [waits?]
  split
  · rename_i n c hi
    simp [hi]
  · rename_i hn
    exact iff_of_false nofun fun ⟨c, hc⟩ => hn _ _ hc

theorem refusal?_of_line {e : LobbyError} (h : s.lines[i]? = some (.refused e client)) :
    s.refusal? i = some e := by
  rw [refusal?, h]

theorem link?_of_refused {e : LobbyError} (h : s.lines[i]? = some (.refused e client)) :
    s.link? i = none := by
  rw [link?, h]
  rfl

theorem within_admitted (hs : s.lobby.register.Within)
    (limits : s.lobby.checkLimits name = .ok ()) : Register.Within { s.lobby.register with
      names := s.lobby.register.names.insert (s.lobby.register.last + 1) name
      last := s.lobby.register.last + 1 } where
  total := by
    have hlt := (Lobby.checkLimits_eq_ok.1 limits).1
    rw [← s.lobby.size_names] at hlt
    exact Nat.le_trans (Table.size_insert_le _ _ _) hlt
  each x := by
    have hle := Table.count_values_insert_le s.lobby.register.names (s.lobby.register.last + 1)
      name x
    by_cases hx : name = x
    · subst hx
      have hlt := (Lobby.checkLimits_eq_ok.1 limits).2
      rw [Lobby.guestsNamed_eq_count] at hlt
      rw [if_pos rfl] at hle
      exact Nat.le_trans hle hlt
    · rw [if_neg hx] at hle
      exact Nat.le_trans hle (hs.each x)
  known k hk := by
    simp only [Table.contains, Table.get?_insert] at hk
    split at hk
    · rename_i he
      exact Nat.le_of_eq he
    · exact Nat.le_succ_of_le (hs.known k hk)

theorem within_forgot {r : Register} (hr : r.Within) (k : SocketId) :
    Register.Within { r with names := r.names.erase k } where
  total := by
    have hle := (r.names.values_erase_sublist k).length_le
    rw [Table.length_values, Table.length_values] at hle
    exact Nat.le_trans hle hr.total
  each x := Nat.le_trans ((r.names.values_erase_sublist k).count_le x) (hr.each x)
  known x hx := by
    simp only [Table.contains, Table.get?_erase] at hx
    split at hx
    · cases hx
    · exact hr.known x hx

theorem Registers.within (h : s.Registers mv s') (hs : s.lobby.register.Within) :
    s'.lobby.register.Within := by
  cases h with
  | kept same => rwa [same]
  | admitted move next waits limits register => exact register ▸ within_admitted hs limits
  | forgot move event register => exact register ▸ within_forgot hs _

theorem Registers.limits (h : s.Registers mv s') :
    s'.lobby.maxSockets = s.lobby.maxSockets ∧
      s'.lobby.maxPlayerSockets = s.lobby.maxPlayerSockets := by
  change s'.lobby.register.maxSockets = s.lobby.register.maxSockets ∧
    s'.lobby.register.maxPlayerSockets = s.lobby.register.maxPlayerSockets
  cases h with
  | kept same => rw [same]; exact ⟨rfl, rfl⟩
  | admitted move next waits limits register => rw [register]; exact ⟨rfl, rfl⟩
  | forgot move event register => rw [register]; exact ⟨rfl, rfl⟩

theorem Fresh.within (h : s.Fresh) : s.lobby.register.Within := by
  have hnames : s.lobby.register.names = .empty := by
    rw [Lobby.register, h.guests]
    rfl
  refine ⟨?_, fun name => ?_, fun k hk => ?_⟩
  · rw [hnames]
    exact Nat.zero_le _
  · rw [hnames]
    exact Nat.zero_le _
  · rw [hnames] at hk
    cases hk

/-- What is true of whom the lobby knows, at any time. -/
structure Keeps (s₀ s : Server) : Prop where
  attended : s.Attended
  within : s.lobby.register.Within
  limits : s.lobby.maxSockets = s₀.lobby.maxSockets ∧
    s.lobby.maxPlayerSockets = s₀.lobby.maxPlayerSockets

theorem Keeps.move {s₀ : Server} (hs : s₀.Keeps s) (h : s.move mv = some s') : s₀.Keeps s' := by
  have hregisters := hs.attended.registers h
  refine ⟨hs.attended.move h, hregisters.within hs.within, ?_⟩
  rw [hregisters.limits.1, hregisters.limits.2]
  exact hs.limits

theorem Fresh.keeps (h : s.Fresh) : s.Keeps s := ⟨h.attended, h.within, rfl, rfl⟩

theorem keeps_run {s₀ : Server} (h₀ : s₀.Fresh) (hrun : s₀.run mvs = some s) : s₀.Keeps s :=
  run_induction (fun hs h => hs.move h) h₀.keeps hrun

theorem Settles.decides (h : s.Settles i name client s') (hs : s.lobby.register.Within) :
    s.Decides i name s' := by
  cases h with
  | admitted limits register line =>
    obtain ⟨hsize, hnamed⟩ := Lobby.checkLimits_eq_ok.1 limits
    have hlink := link?_eq_some.2 line
    refine ⟨iff_of_true (by simp [hlink]) ⟨hsize, hnamed⟩, fun h => ?_, fun _ h => ?_,
      fun l hl => ?_, fun h => ?_⟩
    · exact (Nat.not_lt.2 h hsize).elim
    · exact (Nat.not_lt.2 h hnamed).elim
    · obtain rfl := Option.some.inj (hlink.symm.trans hl)
      refine ⟨rfl, ?_, fun k => ?_⟩
      · rw [Lobby.nameOf_eq]
        refine Option.not_isSome_iff_eq_none.1 fun hk => ?_
        exact Nat.not_succ_le_self _ (hs.known _ hk)
      · rw [Lobby.nameOf_eq, register, Lobby.nameOf_eq]
        exact Table.get?_insert _ _ _ _
    · rw [hlink] at h
      cases h
  | @refused e limits lobby line =>
    have hlink := link?_of_refused line
    have hrefusal := refusal?_of_line line
    refine ⟨iff_of_false (by simp [hlink]) fun hlt => ?_, fun h => ?_, fun h h' => ?_,
      fun l hl => ?_, fun _ => lobby⟩
    · rw [Lobby.checkLimits_eq_ok.2 hlt] at limits
      cases limits
    · rw [Lobby.checkLimits, if_pos h] at limits
      rw [hrefusal, Except.error.inj limits]
    · rw [Lobby.checkLimits, if_neg (Nat.not_le.2 h), if_pos h'] at limits
      rw [hrefusal, Except.error.inj limits]
    · rw [hlink] at hl
      cases hl

theorem admitted?_of_ne (h : mv ≠ .act .enroll) : s.admitted? mv s' = none := by
  rw [admitted?]
  exact h

theorem admitted?_spec (hs : s.Attended) (h : s.move mv = some s') :
    s.admitted? mv s' = none ∧ s'.lobby.lastSocket = s.lobby.lastSocket ∨
      s.admitted? mv s' = some (s.lobby.lastSocket + 1) ∧
        s'.lobby.lastSocket = s.lobby.lastSocket + 1 := by
  by_cases hmv : mv = .act .enroll
  · subst hmv
    obtain ⟨i, name, client, hnext, -, hsettles⟩ := hs.enroll h
    simp only [admitted?, hnext, List.head?_cons, Option.bind_some]
    cases hsettles with
    | admitted limits register line =>
      rw [link?_eq_some.2 line]
      exact .inr ⟨rfl, congrArg Register.last register⟩
    | refused limits lobby line =>
      rw [link?_of_refused line, lobby]
      exact .inl ⟨rfl, rfl⟩
  · refine .inl ⟨admitted?_of_ne hmv, ?_⟩
    cases hs.registers h with
    | kept same => exact congrArg Register.last same
    | admitted move => exact (hmv move).elim
    | forgot move event register => exact congrArg Register.last register

theorem Keeps.enters {s₀ : Server} {k : SocketId} (hs : s₀.Keeps s) (h : s.move mv = some s')
    (hk : s.lobby.nameOf k = none) (hk' : s'.lobby.nameOf k ≠ none) :
    s.admitted? mv s' = some k := by
  rw [Lobby.nameOf_eq] at hk hk'
  cases hs.attended.registers h with
  | kept same => exact (hk' (same ▸ hk)).elim
  | forgot move event register =>
    rw [register, Table.get?_erase] at hk'
    split at hk'
    · exact (hk' rfl).elim
    · exact (hk' hk).elim
  | admitted move next waits limits register =>
    rw [register, Table.get?_insert] at hk'
    split at hk'
    · rename_i he
      obtain ⟨-, hlast⟩ | ⟨hadmitted, -⟩ := admitted?_spec hs.attended h
      · have hlast' : s'.lobby.lastSocket = _ := congrArg Register.last register
        exact absurd (hlast.symm.trans hlast') (Nat.ne_of_lt (Nat.lt_succ_self _))
      · rw [hadmitted, he]
        rfl
    · exact (hk' hk).elim

theorem Keeps.frees {s₀ : Server} {k : SocketId} (hs : s₀.Keeps s) (h : s.move mv = some s')
    (hk : s.lobby.nameOf k = some name) : s'.lobby.nameOf k = none ↔
      ∃ x rest, mv = .act .hear ∧ s.events = .closed x k :: rest := by
  rw [Lobby.nameOf_eq] at hk ⊢
  cases hs.attended.registers h with
  | kept same hear enroll =>
    refine iff_of_false (by simp [same, hk]) ?_
    rintro ⟨x, rest, hmv, hevent⟩
    exact hear _ _ _ hmv hevent
  | admitted move next waits limits register =>
    refine iff_of_false ?_ (by simp [move])
    rw [register, Table.get?_insert]
    split
    · simp
    · simp [hk]
  | @forgot x k' rest move event register =>
    rw [register, Table.get?_erase]
    constructor
    · intro hnone
      split at hnone
      · rename_i he
        exact ⟨x, rest, move, he ▸ event⟩
      · rw [hk] at hnone
        cases hnone
    · rintro ⟨x', rest', -, hevent⟩
      rw [event] at hevent
      obtain ⟨he, -⟩ := List.cons.inj hevent
      rw [if_pos (Event.closed.inj he).2.symm]

theorem Keeps.stays {s₀ : Server} {k : SocketId} (hs : s₀.Keeps s) (h : s.move mv = some s')
    (hk : s.lobby.nameOf k = some name) (hk' : s'.lobby.nameOf k ≠ none) :
    s'.lobby.nameOf k = some name := by
  rw [Lobby.nameOf_eq] at hk hk' ⊢
  cases hs.attended.registers h with
  | kept same => rw [same, hk]
  | admitted move next waits limits register =>
    rw [register, Table.get?_insert]
    split
    · rename_i he
      refine absurd (hs.within.known k ?_) (by rw [he]; exact Nat.not_succ_le_self _)
      rw [Table.contains, hk]
      rfl
    · exact hk
  | forgot move event register =>
    rw [register, Table.get?_erase] at hk' ⊢
    split at hk'
    · exact (hk' rfl).elim
    · rename_i he
      rw [if_neg he, hk]

theorem Keeps.admits {s₀ : Server} (hs : s₀.Keeps s) (h : s.move mv = some s') :
    s.Admits mv s' where
  asks name hmv := by
    subst hmv
    cases does_move h with
    | asks => exact ⟨rfl, fun _ _ => waits?_eq_some.2 ⟨_, List.getElem?_concat_length⟩⟩
    | turns why =>
      refine ⟨rfl, fun hnamed hlive => ?_⟩
      obtain ⟨-, hunnamed⟩ | ⟨-, hclosed⟩ := why
      · cases hunnamed.symm.trans hnamed
      · cases hlive.symm.trans hclosed
    | touches touch => cases touch
  waits i name hw := by
    obtain ⟨client, hw⟩ := waits?_eq_some.1 hw
    refine ⟨hs.attended.named hw, (hs.attended.mem_requests i).2 ⟨_, _, hw⟩, ?_⟩
    obtain hw' | ⟨hmv, hnext⟩ | hmv := waiting_after h hw
    · exact .inl (waits?_eq_some.2 hw')
    · exact .inr (.inl ⟨hmv, by simp [hnext]⟩)
    · exact .inr (.inr hmv)
  decides hmv := by
    subst hmv
    obtain ⟨i, name, client, hnext, hw, hsettles⟩ := hs.attended.enroll h
    exact ⟨i, name, hnext, waits?_eq_some.2 ⟨client, hw⟩, hsettles.decides hs.within⟩
  enters _ := hs.enters h
  frees _ _ := hs.frees h
  stays _ _ := hs.stays h

theorem admissions_cons (h : s.move mv = some s') :
    s.admissions (mv :: mvs) = (s.admitted? mv s').toList ++ s'.admissions mvs := by
  rw [admissions, h]

theorem admissions_increase {s₀ : Server} (hs : s₀.Keeps s) (hrun : s.run mvs = some s') :
    (s.admissions mvs).Pairwise (· < ·) ∧ ∀ k ∈ s.admissions mvs, s.lobby.lastSocket < k := by
  induction mvs generalizing s with
  | nil => exact ⟨.nil, nofun⟩
  | cons mv mvs ih =>
    obtain ⟨t, ht, hrun⟩ := run_cons.1 hrun
    obtain ⟨hpairs, hnew⟩ := ih (hs.move ht) hrun
    rw [admissions_cons ht]
    obtain ⟨hnone, hlast⟩ | ⟨hsome, hlast⟩ := admitted?_spec hs.attended ht
    · rw [hnone]
      exact ⟨hpairs, fun k hk => hlast ▸ hnew k hk⟩
    · rw [hsome]
      rw [hlast] at hnew
      refine ⟨List.pairwise_cons.2 ⟨hnew, hpairs⟩, fun k hk => ?_⟩
      obtain rfl | hk := List.mem_cons.1 hk
      · exact Nat.lt_succ_self _
      · exact Nat.lt_of_succ_lt (hnew k hk)

/-- The limits are kept, and whoever asks is let in just when they leave room. Numbers are not used
again, and a place is free again when the end of its connection is heard of, and no sooner. -/
theorem admission_exact {s₀ : Server} (h₀ : s₀.Fresh) (hrun : s₀.run mvs = some s) :
    s.lobby.guests.size ≤ s₀.lobby.maxSockets.toNat ∧
    (∀ name, s.lobby.guestsNamed name ≤ s₀.lobby.maxPlayerSockets.toNat) ∧
    (s₀.admissions mvs).Pairwise (· < ·) ∧
    ∀ mv s', s.move mv = some s' → s.Admits mv s' := by
  have hs := keeps_run h₀ hrun
  refine ⟨?_, fun name => ?_, ?_, fun mv s' h => hs.admits h⟩
  · rw [← s.lobby.size_names, ← hs.limits.1]
    exact hs.within.total
  · rw [Lobby.guestsNamed_eq_count, ← hs.limits.2]
    exact hs.within.each name
  · exact (admissions_increase h₀.keeps hrun).1

def narrow : Server := { vacant with lobby := { vacant.lobby with maxSockets := 1 } }

def crowding : List Move := [.connect "ann", .act .enroll, .act .duty, .connect "bob"]

theorem admission_exact_crowding : ∃ s s', narrow.Fresh ∧ narrow.run crowding = some s ∧
    narrow.admissions crowding = [1] ∧ s.move (.act .enroll) = some s' ∧
    s.Admits (.act .enroll) s' ∧ s'.refusal? 1 = some (.tooManySockets 1) := by
  have h₀ : narrow.Fresh := ⟨rfl, rfl, rfl, rfl, rfl, rfl, rfl, rfl, rfl, rfl⟩
  have hrun : narrow.run crowding = some _ := rfl
  exact ⟨_, _, h₀, hrun, rfl, rfl, (admission_exact h₀ hrun).2.2.2 _ _ rfl, rfl⟩

end Server

end TileRace
