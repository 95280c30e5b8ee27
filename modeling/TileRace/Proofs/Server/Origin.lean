import Mathlib.Data.List.Induction
import TileRace.Proofs.Server.Journey

namespace TileRace

/-- A request stays as it is, but that the lobby makes a request to join a new game of the request
to create it. -/
def Message.Becomes (m o : Message) : Prop :=
  o = m ∨ m.kind = .createGame ∧
    ∃ id, o = { m.reply .joinGame with gameId := some id, grid := m.grid }

theorem Message.Becomes.trans {m o o' : Message} (h : m.Becomes o) (h' : o.Becomes o') :
    m.Becomes o' := by
  obtain rfl | ⟨hm, id, rfl⟩ := h
  · exact h'
  · obtain rfl | ⟨hk, -⟩ := h'
    · exact .inr ⟨hm, id, rfl⟩
    · cases hk

namespace Server

variable {s s' : Server} {mv : Move} {mvs : List Move} {m : Message} {i n : Nat}

inductive Brings (s : Server) (mv : Move) (s' : Server) : Message → Place → Prop where
  | along {p q m o} (before : s.at? p = some m) (next : s.onward mv s' p = q)
    (becomes : m.Becomes o) : Brings s mv s' o q
  | read {i l m} (move : mv = .act (.line i .readFrame)) (link : s.link? i = some l)
    (reading : l.reading? = some m) : Brings s mv s' (l.stamp m) (.offered i)

theorem Brings.same {p q : Place} (before : s.at? p = some m) (next : s.onward mv s' p = q) :
    s.Brings mv s' m q :=
  .along before next (.inl rfl)

theorem brings_offered (h : s.move mv = some s') (hp : s'.at? (.offered i) = some m) :
    s.Brings mv s' m (.offered i) := by
  cases offers_move h i with
  | kept next same => exact .same (same.symm.trans hp) next
  | read move link before after =>
    obtain ⟨m, hm, rfl⟩ := Option.map_eq_some_iff.1 (after.symm.trans hp)
    exact .read move link hm
  | gone next after | taken before after => cases after.symm.trans hp

theorem brings_queued {p : Nat} (h : s.move mv = some s') (hp : s'.at? (.queued p) = some m) :
    s.Brings mv s' m (.queued p) := by
  by_cases hear : mv = .act .hear
  · subst hear
    obtain ⟨e, he, -⟩ := hear_move h
    refine .same (p := .queued (p + 1)) ?_ rfl
    rw [at?, he]
    exact hp
  by_cases stop : mv = .act .stop
  · subst stop
    rw [at?, (stop_move h).1] at hp
    cases hp
  obtain ⟨e, he, hnew⟩ := events_grow h hear stop
  rw [at?, he, List.getElem?_append] at hp
  split at hp
  · exact .same (p := .queued p) hp (by rw [onward, if_neg hear, if_neg stop])
  · cases e with
    | none => cases hp
    | some e =>
      rw [Option.toList_some, List.getElem?_singleton] at hp
      split at hp
      · rename_i hle hpos
        obtain rfl : p = s.events.length := by omega
        cases e with
        | closed => cases hp
        | inbound o =>
          obtain rfl := Option.some.inj hp
          obtain ⟨i, hi, hnext⟩ := hnew o rfl
          exact .same hi hnext
      · cases hp

theorem becomes_created {r : Registry} {now : Nat} {c : Registry.Created}
    (h : r.create now m = .ok c) (hk : m.kind = .createGame) : m.Becomes c.join := by
  simp only [Registry.create] at h
  split at h
  · cases h
  split at h
  · cases h
  rename_i grid hgrid
  split at h
  · cases h
  split at h
  · cases h
  simp only [bind_eq_ok, mapError_eq_ok, pure_eq_ok] at h
  obtain ⟨game, -, rfl⟩ := h
  exact .inr ⟨hk, r.nextId, by rw [hgrid]⟩

theorem brings_hear {p : Nat} (h : s.move (.act .hear) = some s')
    (hp : s'.at? (.due p) = some m) : s.Brings (.act .hear) s' m (.due p) := by
  obtain ⟨e, he, -, ⟨o, rfl, -⟩ | ⟨-, hds, -⟩⟩ := hear_move h
  · have hat : s.at? (.queued 0) = some o := by
      rw [at?, he]
      rfl
    obtain ⟨hr, htaken⟩ := takes_up h hat
    have hnext : s.onward (.act .hear) s' (.queued 0) = .ofDuties s'.duties := htaken
    rw [at?] at hp
    generalize s'.lobby = l', s'.duties = ds at hr hp hnext
    cases hr with
    | dropped => cases hp
    | left | answered => cases p <;> cases hp
    | created sent kind game =>
      cases p with
      | zero =>
        obtain rfl := Option.some.inj hp
        exact .along hat hnext (becomes_created game kind)
      | succ => cases hp
    | passed =>
      cases p with
      | zero =>
        obtain rfl := Option.some.inj hp
        exact .same hat hnext
      | succ => cases hp
  · rw [at?, hds] at hp
    cases hp

theorem brings_due {p : Nat} (hl : s.lobby.Consistent) (h : s.move mv = some s')
    (hp : s'.at? (.due p) = some m) : s.Brings mv s' m (.due p) := by
  by_cases hear : mv = .act .hear
  · subst hear
    exact brings_hear h hp
  by_cases duty : mv = .act .duty
  · subst duty
    obtain ⟨d, hds, -⟩ := duty_move h
    refine .same (p := .due (p + 1)) ?_ rfl
    rw [at?, hds]
    exact hp
  obtain hsame | ⟨-, hnone⟩ := duties_of_ne hl h hear duty
  · rw [at?, hsame] at hp
    exact .same (p := .due p) hp (by rw [onward, if_neg duty])
  · obtain ⟨d, hd, hm⟩ := Option.bind_eq_some_iff.1 hp
    cases (hnone d (List.mem_of_getElem? hd)).symm.trans hm

theorem passedOn_of_sent {d : Deed} (h : s.deed? (.act .duty) = some d) (n p : Nat) :
    s.passedOn ≠ .inbox n p := by
  simp only [deed?] at h
  rw [passedOn]
  split
  · rename_i hds
    simp only [hds] at h
    split at h
    · rename_i hended
      rw [hended]
      simp
    · cases h
  · simp

theorem inbox_duty (h : s.move (.act .duty) = some s') (n : Nat) :
    (s'.lobby.games.inbox n = s.lobby.games.inbox n ∧ ∀ p, s.passedOn ≠ .inbox n p) ∨
    ∃ m, (s.duties[0]?).bind Duty.request? = some m ∧
      s.passedOn = .inbox n (s.lobby.games.inbox n).length ∧
      s'.lobby.games.inbox n = s.lobby.games.inbox n ++ [m] := by
  cases does_move h with
  | @passes k m socket answer ds games due delivered =>
    have hinbox := (Registry.deliver_eq_accepted delivered).2 n
    simp only [passedOn, due, delivered]
    by_cases hn : n = k
    · subst hn
      rw [if_pos rfl] at hinbox
      exact .inr ⟨m, rfl, rfl, hinbox⟩
    · rw [if_neg hn, List.append_nil] at hinbox
      exact .inl ⟨hinbox, fun p he => hn (Place.inbox.inj he).1.symm⟩
  | loses due sent => exact .inl ⟨rfl, passedOn_of_sent sent n⟩
  | queues due sent => exact .inl ⟨rfl, passedOn_of_sent sent n⟩
  | touches touch => cases touch

theorem onward_inbox {p : Nat} (handle : mv ≠ .act (.game n .handle))
    (hlt : p < (s'.lobby.games.inbox n).length) :
    s.onward mv s' (.inbox n p) = .inbox n p := by
  rw [onward, if_neg fun h => handle h.1]
  simp only [if_neg handle, if_pos hlt]

theorem brings_inbox {p : Nat} (hl : s.lobby.Consistent) (h : s.move mv = some s')
    (hp : s'.at? (.inbox n p) = some m) : s.Brings mv s' m (.inbox n p) := by
  have hlt : p < (s'.lobby.games.inbox n).length := (List.getElem?_eq_some_iff.1 hp).1
  rw [at?] at hp
  by_cases duty : mv = .act .duty
  · subst duty
    obtain ⟨hsame, -⟩ | ⟨o, ho, hpassed, happ⟩ := inbox_duty h n
    · rw [hsame] at hp
      exact .same (p := .inbox n p) hp (onward_inbox (by simp) hlt)
    · rw [happ, List.getElem?_append] at hp
      split at hp
      · exact .same (p := .inbox n p) hp (onward_inbox (by simp) hlt)
      · rw [List.getElem?_singleton] at hp
        split at hp
        · obtain rfl := Option.some.inj hp
          obtain rfl : p = (s.lobby.games.inbox n).length := by omega
          exact .same (p := .due 0) ho (by rw [onward, if_pos rfl, if_pos rfl, hpassed])
        · cases hp
  by_cases game : ∃ a, mv = .act (.game n a)
  · obtain ⟨a, rfl⟩ := game
    obtain ⟨o, rest, rfl, hinbox, hrest⟩ | hnil := inbox_play h
    · refine .same (p := .inbox n (p + 1)) ?_ ?_
      · rw [at?, hinbox]
        exact hrest ▸ hp
      · rw [onward, if_neg fun he => Nat.succ_ne_zero p he.2]
        simp only [if_true, Nat.add_sub_cancel, if_pos hlt]
    · rw [hnil] at hp
      cases hp
  · rw [inbox_of_ne hl h duty fun a he => game ⟨a, he⟩] at hp
    exact .same (p := .inbox n p) hp (onward_inbox (fun he => game ⟨_, he⟩) hlt)

theorem brings_move {p : Place} (hl : s.lobby.Consistent) (h : s.move mv = some s')
    (hp : s'.at? p = some m) : s.Brings mv s' m p := by
  cases p with
  | offered => exact brings_offered h hp
  | queued => exact brings_queued h hp
  | due => exact brings_due hl h hp
  | inbox => exact brings_inbox hl h hp
  | handled | answered | gone => cases hp

theorem Fresh.at? (h : s.Fresh) (p : Place) : s.at? p = none := by
  cases p with
  | offered i => rw [Server.at?, h.link?]; rfl
  | queued p => rw [Server.at?, h.events]; rfl
  | due p => rw [Server.at?, h.duties]; rfl
  | inbox n p => rw [Server.at?, Registry.inbox, h.sessions]; rfl
  | handled | answered | gone => rfl

/-- Every request was read from a client, and its way led to where it is. -/
theorem read_of_at? {s₀ : Server} {p : Place} (h₀ : s₀.Fresh) (hrun : s₀.run mvs = some s)
    (hp : s.at? p = some m) : ∃ before i after t t' l o,
      mvs = before ++ .act (.line i .readFrame) :: after ∧ s₀.run before = some t ∧
      t.link? i = some l ∧ l.reading? = some o ∧
      t.move (.act (.line i .readFrame)) = some t' ∧ t'.journey (.offered i) after = p ∧
      (l.stamp o).Becomes m := by
  induction mvs using List.reverseRecOn generalizing s p m with
  | nil =>
    obtain rfl := Option.some.inj hrun
    rw [h₀.at?] at hp
    cases hp
  | append_singleton mvs mv ih =>
    rw [run_append] at hrun
    obtain ⟨r, hr, hlast⟩ := Option.bind_eq_some_iff.1 hrun
    obtain ⟨r', hmv, hend⟩ := run_cons.1 hlast
    obtain rfl := Option.some.inj hend
    cases brings_move (consistent_run h₀.consistent hr) hmv hp with
    | along before next becomes =>
      obtain ⟨mvs, i, after, t, t', l, o, rfl, ht, hlink, hread, hmv', hjourney, hbecomes⟩ :=
        ih hr before
      refine ⟨mvs, i, after ++ [mv], t, t', l, o, List.append_assoc .., ht, hlink, hread, hmv', ?_,
        hbecomes.trans becomes⟩
      have hafter : t'.run after = some r := by
        rw [run_append, ht] at hr
        obtain ⟨u, hu, hafter⟩ := run_cons.1 hr
        rwa [Option.some.inj (hmv'.symm.trans hu)]
      rw [journey_append hafter, hjourney, journey_cons hmv, next]
      rfl
    | read move link reading =>
      subst move
      exact ⟨mvs, _, [], r, r', _, _, rfl, hr, link, reading, hmv, rfl, .inl rfl⟩

end Server

end TileRace
