import TileRace.Proofs.Server.Admission

namespace TileRace

/-- `l'` is the connection `l` of the same player at a later time. A writer that has stopped stays
so. -/
structure Link.SamePlayer (l l' : Link) : Prop where
  socket : l'.socket = l.socket
  name : l'.name = l.name
  stopped : l.writer = .stopped → l'.writer = .stopped

theorem Link.SamePlayer.refl (l : Link) : l.SamePlayer l := ⟨rfl, rfl, id⟩

theorem Link.NothingQueued.samePlayer {l l' : Link} (h : l.NothingQueued l') : l.SamePlayer l' :=
  ⟨h.socket, h.name, h.stopped⟩

namespace Server

inductive Comes (s : Server) (mv : Move) (i : Nat) (s' : Server) (l' : Link) : Prop where
  | before {l} (link : s.link? i = some l) (same : l.SamePlayer l')
  | admitted {name} (next : s.requests = i :: s'.requests)
    (socket : l'.socket = s.lobby.register.last + 1) (called : l'.name = name)
    (register : s'.lobby.register = { s.lobby.register with
      names := s.lobby.register.names.insert (s.lobby.register.last + 1) name
      last := s.lobby.register.last + 1 })

/-- How the connections stand in the register. One is registered under the name of its player until
its writer has stopped. -/
structure Listed (s : Server) : Prop where
  known {i l} : s.link? i = some l → l.socket ≤ s.lobby.register.last
  distinct {i j l l'} : s.link? i = some l → s.link? j = some l' → l.socket = l'.socket → i = j
  named {i l x} : s.link? i = some l → s.lobby.nameOf l.socket = some x → x = l.name
  listed {i l} : s.link? i = some l → l.writer ≠ .stopped → s.lobby.nameOf l.socket = some l.name
  ended {x k} : .closed x k ∈ s.events →
    ∃ i l, s.link? i = some l ∧ l.socket = k ∧ l.writer = .stopped

variable {s s' : Server} {mv : Move} {i : Nat} {l l' : Link}

theorem comes_move (h : s.move mv = some s') (hl : s'.link? i = some l') : s.Comes mv i s' l' := by
  have hatt := attends_move h i
  have hold {l : Link} : s.lines[i]? = some (.opened l) → s.link? i = some l := link?_eq_some.2
  have hl := link?_eq_some.1 hl
  generalize s.lines[i]? = o, s'.lines[i]? = o' at hatt hl hold
  cases hatt with
  | kept => exact .before (hold hl) (.refl l')
  | linked nothing =>
    cases hl
    exact .before (hold rfl) nothing.samePlayer
  | queued =>
    cases hl
    exact .before (hold rfl) ⟨rfl, rfl, id⟩
  | @looked x =>
    cases x with
    | opened l =>
      cases hl
      exact .before (hold rfl) l.nothingQueued_look.samePlayer
    | waiting | refused => cases hl
  | admitted move next limits register =>
    cases hl
    exact .admitted next rfl rfl register
  | absent | asked | turned | refused | stopped => cases hl

theorem link?_after (h : s.move mv = some s') (hl : s.link? i = some l) :
    ∃ l', s'.link? i = some l' ∧ l.SamePlayer l' := by
  have hatt := attends_move h i
  have hnew {l' : Link} : s'.lines[i]? = some (.opened l') → s'.link? i = some l' :=
    link?_eq_some.2
  have hl := link?_eq_some.1 hl
  generalize s.lines[i]? = o, s'.lines[i]? = o' at hatt hl hnew
  cases hatt with
  | kept => exact ⟨l, hnew hl, .refl l⟩
  | linked nothing =>
    cases hl
    exact ⟨_, hnew rfl, nothing.samePlayer⟩
  | queued =>
    cases hl
    exact ⟨_, hnew rfl, ⟨rfl, rfl, id⟩⟩
  | looked =>
    cases hl
    exact ⟨_, hnew rfl, l.nothingQueued_look.samePlayer⟩
  | absent | asked | turned | refused | stopped | admitted => cases hl

theorem closed_before {name : String} {k : SocketId} (h : s.move mv = some s')
    (hmem : .closed name k ∈ s'.events) : .closed name k ∈ s.events ∨
      ∃ i l, s'.link? i = some l ∧ l.socket = k ∧ l.writer = .stopped := by
  by_cases hear : mv = .act .hear
  · subst hear
    obtain ⟨e, he, -⟩ := hear_move h
    exact .inl (he ▸ List.mem_cons_of_mem _ hmem)
  by_cases stop : mv = .act .stop
  · subst stop
    rw [(stop_move h).1] at hmem
    cases hmem
  by_cases line : ∃ i a, mv = .act (.line i a)
  · obtain ⟨i, a, rfl⟩ := line
    obtain ⟨l, l', e, -, ha, hl', hevents, -⟩ := line_move h
    rw [hevents] at hmem
    refine (List.mem_append.1 hmem).imp_right fun hmem => ?_
    obtain rfl := Option.mem_toList.1 hmem
    obtain ⟨-, hk, hw⟩ := Link.closed_act ha
    exact ⟨i, l', hl', hk, hw⟩
  · rw [events_of_ne h hear stop fun i a he => line ⟨i, a, he⟩] at hmem
    exact .inl hmem

theorem Fresh.listed (h : s.Fresh) : s.Listed where
  known hl := by simp [h.link?] at hl
  distinct hl := by simp [h.link?] at hl
  named hl := by simp [h.link?] at hl
  listed hl := by simp [h.link?] at hl
  ended he := by simp [h.events] at he

theorem Listed.nameOf (hs : s.Listed) (hreg : s.Registers mv s') (hl : s.link? i = some l) :
    s'.lobby.nameOf l.socket = s.lobby.nameOf l.socket ∨
      s'.lobby.nameOf l.socket = none ∧ l.writer = .stopped := by
  simp only [Lobby.nameOf_eq]
  cases hreg with
  | kept same => exact .inl (by rw [same])
  | admitted move next waits limits register =>
    refine .inl ?_
    rw [register, Table.get?_insert, if_neg]
    exact Nat.ne_of_lt (Nat.lt_succ_of_le (hs.known hl))
  | @forgot x k rest move event register =>
    rw [register, Table.get?_erase]
    split
    · rename_i hk
      obtain ⟨j, l', hl', hk', hw⟩ := hs.ended (event ▸ List.mem_cons_self)
      obtain rfl := hs.distinct hl hl' (hk.trans hk'.symm)
      obtain rfl := Option.some.inj (hl.symm.trans hl')
      exact .inr ⟨rfl, hw⟩
    · exact .inl rfl

theorem Registers.last_le (h : s.Registers mv s') :
    s.lobby.register.last ≤ s'.lobby.register.last := by
  cases h with
  | kept same => exact Nat.le_of_eq (by rw [same])
  | admitted move next waits limits register => exact register ▸ Nat.le_succ _
  | forgot move event register => exact Nat.le_of_eq (by rw [register])

theorem Listed.move (hs : s.Listed) (hatt : s.Attended) (h : s.move mv = some s') :
    s'.Listed := by
  have hreg := hatt.registers h
  refine ⟨fun hl => ?_, fun {i j l l'} hl hl' he => ?_, fun {i l x} hl hx => ?_,
    fun {i l} hl hw => ?_, fun he => ?_⟩
  · cases comes_move h hl with
    | before link same => exact same.socket ▸ Nat.le_trans (hs.known link) hreg.last_le
    | admitted next socket called register => exact Nat.le_of_eq (by rw [socket, register])
  · cases comes_move h hl with
    | before link same =>
      cases comes_move h hl' with
      | before link' same' =>
        exact hs.distinct link link' (same.socket.symm.trans (he.trans same'.socket))
      | admitted next' socket' =>
        have hk := hs.known link
        rw [← same.socket, he, socket'] at hk
        exact (Nat.not_succ_le_self _ hk).elim
    | admitted next socket =>
      cases comes_move h hl' with
      | before link' same' =>
        have hk := hs.known link'
        rw [← same'.socket, ← he, socket] at hk
        exact (Nat.not_succ_le_self _ hk).elim
      | admitted next' => exact (List.cons.inj (next.symm.trans next')).1
  · cases comes_move h hl with
    | before link same =>
      rw [same.socket] at hx
      rw [same.name]
      obtain hsame | ⟨hnone, -⟩ := hs.nameOf hreg link
      · exact hs.named link (hsame.symm.trans hx)
      · cases hnone.symm.trans hx
    | admitted next socket called register =>
      rw [Lobby.nameOf_eq, register, socket, Table.get?_insert, if_pos rfl] at hx
      exact (Option.some.inj hx).symm.trans called.symm
  · cases comes_move h hl with
    | before link same =>
      rw [same.socket, same.name]
      obtain hsame | ⟨-, hstopped⟩ := hs.nameOf hreg link
      · exact hsame.trans (hs.listed link (hw ∘ same.stopped))
      · exact (hw (same.stopped hstopped)).elim
    | admitted next socket called register =>
      rw [Lobby.nameOf_eq, register, socket, Table.get?_insert, if_pos rfl, called]
  · obtain he | hnew := closed_before h he
    · obtain ⟨i, l, hl, hk, hw⟩ := hs.ended he
      obtain ⟨l', hl', same⟩ := link?_after h hl
      exact ⟨i, l', hl', same.socket.trans hk, same.stopped hw⟩
    · exact hnew

theorem listed_run {s₀ : Server} {mvs : List Move} (h₀ : s₀.Fresh) (hrun : s₀.run mvs = some s) :
    s.Attended ∧ s.Listed := by
  have hstep {s s' : Server} {mv : Move} (hs : s.Attended ∧ s.Listed) (h : s.move mv = some s') :
      s'.Attended ∧ s'.Listed := ⟨hs.1.move h, hs.2.move hs.1 h⟩
  exact run_induction hstep ⟨h₀.attended, h₀.listed⟩ hrun

end Server

end TileRace
