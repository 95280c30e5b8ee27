import TileRace.Proofs.Server.Consistent

namespace TileRace

def routed (n : Nat) (deeds : List Deed) : List Message := deeds.filterMap fun
  | .route k m => if k = n then some m else none
  | _ => none

theorem routed_append (n : Nat) (ds ds' : List Deed) :
    routed n (ds ++ ds') = routed n ds ++ routed n ds' :=
  List.filterMap_append ..

theorem routed_route (n k : Nat) (m : Message) :
    routed n [.route k m] = if k = n then [m] else [] := by
  rw [routed, List.filterMap_cons]
  by_cases h : k = n <;> simp [h]

theorem routed_of_quiet {n : Nat} {d : Option Deed} (h : ∀ m, d ≠ some (.route n m)) :
    routed n d.toList = [] := by
  obtain _ | m | ⟨k, m⟩ | ⟨k, m⟩ := d
  · rfl
  · rfl
  · rw [Option.toList, routed_route, if_neg]
    rintro rfl
    exact h m rfl
  · rfl

namespace Registry

/-- All that can happen to the rooms, the games and the reports. -/
inductive Change (r : Registry) (d : Option Deed) : Registry → Prop where
  | alike {r'} (same : r.Alike r') (quiet : ∀ n m, d ≠ some (.route n m)) : Change r d r'
  | opened {m c s} (opens : r.Opens m c s) (free : r.rooms.get? r.nextId = none)
    (quiet : ∀ n m, d ≠ some (.route n m)) : Change r d c.registry
  | played {n s result r'} (plays : r.Plays n s result r') (quiet : d = none) : Change r d r'
  | taken {n m r'} (takes : r.Takes n m r') (deed : d = some (.route n m))
    (lasting : m.kind ≠ .gameDeleted) : Change r d r'
  | deleted {n m id r' r''} (takes : r.Takes n m r') (deed : d = some (.route n m))
    (kind : m.kind = .gameDeleted) (about : m.gameId = some id)
    (room : r.rooms.get? id = some n) (removes : r'.Removes id r'') : Change r d r''

variable {r r' : Registry} {d : Option Deed} {n : Nat}

theorem alike_refl (r : Registry) : r.Alike r := ⟨rfl, rfl, fun _ => rfl, fun _ => rfl⟩

structure Over (r : Registry) (n : Nat) : Prop where
  started : n < r.started
  game? : r.game? n = none

theorem Takes.routed {k : Nat} {m : Message} (h : r.Takes k m r') (n : Nat) :
    r.underway n = TileRace.routed n [.route k m] ++ r'.underway n := by
  rw [routed_route]
  by_cases hk : k = n
  · subst hk
    rw [if_pos rfl, h.head]
    rfl
  · rw [if_neg hk, h.others n (Ne.symm hk)]
    rfl

theorem Over.change (h : r.Over n) (hc : r.Change d r') :
    r'.Over n ∧ r.underway n = TileRace.routed n d.toList ++ r'.underway n := by
  cases hc with
  | alike same quiet =>
    refine ⟨⟨same.started ▸ h.started, (same.game? n).trans h.game?⟩, ?_⟩
    rw [routed_of_quiet (quiet n), same.underway]
    rfl
  | opened opens free quiet =>
    refine ⟨⟨?_, ?_⟩, ?_⟩
    · rw [opens.registry]
      exact Nat.lt_succ_of_lt h.started
    · rw [opens.game?, if_neg (Nat.ne_of_lt h.started), h.game?]
    · rw [routed_of_quiet (quiet n), opens.underway]
      rfl
  | @played k s result r' plays quiet =>
    have hne : n ≠ k := by
      rintro rfl
      have hgame := h.game?
      rw [Registry.game?, plays.session] at hgame
      cases hgame
    refine ⟨⟨plays.started ▸ h.started, ?_⟩, ?_⟩
    · rw [plays.game?, if_neg hne, h.game?]
    · rw [quiet, plays.underway, if_neg hne, List.append_nil]
      rfl
  | taken takes deed lasting =>
    rw [deed]
    exact ⟨⟨takes.started ▸ h.started, (takes.game? n).trans h.game?⟩, takes.routed n⟩
  | deleted takes deed kind about room removes =>
    rw [deed]
    refine ⟨⟨removes.started ▸ takes.started ▸ h.started,
      (removes.game? n).trans ((takes.game? n).trans h.game?)⟩, ?_⟩
    rw [removes.underway]
    exact takes.routed n

theorem Gone.change (h : r.Gone n) (hc : r.Change d r') :
    r'.Gone n ∧ ∀ m, d ≠ some (.route n m) := by
  obtain ⟨hover, hunder⟩ := Over.change ⟨h.started, h.game?⟩ hc
  obtain ⟨hrouted, hrest⟩ := List.append_eq_nil_iff.1 (hunder.symm.trans h.underway)
  refine ⟨⟨hover.started, hover.game?, hrest⟩, ?_⟩
  rintro m rfl
  rw [Option.toList, routed_route, if_pos rfl] at hrouted
  cases hrouted

/-- A session keeps its room until its deletion is handled. -/
theorem Change.room (hc : r.Change d r') (hn : n < r'.started) :
    (∃ id, r'.rooms.get? id = some n) ∨
    (∃ m, d = some (.route n m) ∧ m.kind = .gameDeleted) ∨
    n < r.started ∧ ∀ id, r.rooms.get? id ≠ some n := by
  have hsame (hr : r'.rooms = r.rooms) (hs : r'.started = r.started) :
      (∃ id, r'.rooms.get? id = some n) ∨
      (∃ m, d = some (.route n m) ∧ m.kind = .gameDeleted) ∨
      n < r.started ∧ ∀ id, r.rooms.get? id ≠ some n := by
    rw [hr]
    by_cases hid : ∃ id, r.rooms.get? id = some n
    · exact .inl hid
    · exact .inr (.inr ⟨hs ▸ hn, not_exists.1 hid⟩)
  cases hc with
  | alike same => exact hsame same.rooms same.started
  | played plays => exact hsame plays.rooms plays.started
  | taken takes => exact hsame takes.rooms takes.started
  | opened opens free =>
    rw [opens.registry] at hn ⊢
    dsimp only
    by_cases hlast : n = r.started
    · exact .inl ⟨r.nextId, by rw [Table.get?_insert, if_pos rfl, hlast]⟩
    by_cases hid : ∃ id, r.rooms.get? id = some n
    · obtain ⟨id, hid⟩ := hid
      refine .inl ⟨id, ?_⟩
      rw [Table.get?_insert, if_neg, hid]
      rintro rfl
      cases free.symm.trans hid
    · exact .inr (.inr ⟨Nat.lt_of_le_of_ne (Nat.le_of_lt_succ hn) hlast, not_exists.1 hid⟩)
  | @deleted k m id r' r'' takes deed kind about room removes =>
    rw [removes.started, takes.started] at hn
    by_cases hid : ∃ id', r.rooms.get? id' = some n
    · obtain ⟨id', hid'⟩ := hid
      by_cases he : id' = id
      · subst he
        obtain rfl := Option.some.inj (room.symm.trans hid')
        exact .inr (.inl ⟨m, deed, kind⟩)
      · refine .inl ⟨id', ?_⟩
        rw [removes.rooms, Table.get?_erase, if_neg he, takes.rooms, hid']
    · exact .inr (.inr ⟨hn, not_exists.1 hid⟩)

theorem Change.keeps_room {id : GameId} (hc : r.Change d r') (h : r.rooms.get? id = some n) :
    r'.rooms.get? id = some n ∨ ∃ m, d = some (.route n m) ∧ m.kind = .gameDeleted := by
  cases hc with
  | alike same => exact .inl (same.rooms ▸ h)
  | played plays => exact .inl (plays.rooms ▸ h)
  | taken takes => exact .inl (takes.rooms ▸ h)
  | opened opens free =>
    refine .inl ?_
    rw [opens.rooms, if_neg, h]
    rintro rfl
    cases free.symm.trans h
  | @deleted k m id' r' r'' takes deed kind about room removes =>
    by_cases hid : id = id'
    · subst hid
      obtain rfl := Option.some.inj (room.symm.trans h)
      exact .inr ⟨m, deed, kind⟩
    · refine .inl ?_
      rw [removes.rooms, Table.get?_erase, if_neg hid, takes.rooms, h]

theorem Change.keeps_out {id : GameId} (hc : r.Change d r') (hn : n < r.started)
    (h : r.rooms.get? id ≠ some n) : n < r'.started ∧ r'.rooms.get? id ≠ some n := by
  cases hc with
  | alike same => exact ⟨same.started ▸ hn, same.rooms ▸ h⟩
  | played plays => exact ⟨plays.started ▸ hn, plays.rooms ▸ h⟩
  | taken takes => exact ⟨takes.started ▸ hn, takes.rooms ▸ h⟩
  | opened opens free =>
    refine ⟨?_, ?_⟩
    · rw [opens.registry]
      exact Nat.lt_succ_of_lt hn
    · rw [opens.rooms]
      split
      · exact fun he => Nat.ne_of_gt hn (Option.some.inj he)
      · exact h
  | deleted takes deed kind about room removes =>
    refine ⟨removes.started ▸ takes.started ▸ hn, ?_⟩
    rw [removes.rooms, Table.get?_erase, takes.rooms]
    split
    · exact (Option.some_ne_none n).symm
    · exact h

end Registry

namespace Lobby

variable {l l' : Lobby} {m : Message} {games : Registry} {id : GameId} {n : Nat}
  {ds ds' : List Duty} {d : Option Deed}

theorem Consistent.change (h : l.Consistent) (hstep : l.Step ds d l' ds') :
    l.games.Change d l'.games := by
  cases hstep with
  | rest | tell | answer | forget => exact .alike l.games.alike_refl (by simp)
  | enroll free hok =>
    obtain ⟨rfl, -⟩ := enroll_eq_ok hok
    exact .alike l.games.alike_refl (by simp)
  | @hear m _ now free hleft =>
    have hr := receives_receive l now m
    generalize (l.receive now m).1 = l', (l.receive now m).2 = ds' at hr
    cases hr with
    | dropped | passed | answered | left => exact .alike l.games.alike_refl (by simp)
    | created sent kind game =>
      obtain ⟨s, hs⟩ := Registry.create_eq_ok game
      exact .opened hs (Registry.nextId_free h.zero hs.notFull (hleft kind)).2 (by simp)
  | @route n m games _ free hm =>
    obtain ⟨ht, hr⟩ := h.reports hm
    obtain ⟨id, hid, hroom, -⟩ := h.underway (ht.head ▸ List.mem_cons_self : m ∈ _)
    generalize ({ l with games }.report m).1 = l', ({ l with games }.report m).2 = ds' at hr
    cases hr with
    | news kind => exact .taken ht rfl (by simp [kind])
    | deleted kind about deletes =>
      obtain rfl := Option.some.inj (hid.symm.trans about)
      rw [deletes.frame]
      exact .deleted ht rfl kind hid hroom (games.removes_remove id)
    | routed lasting quiet routes =>
      rw [routes.moved.frame]
      exact .taken ht rfl lasting
  | pass socket answer ds hok => exact .alike (Registry.deliver_eq_accepted hok).1 (by simp)
  | play ds hok =>
    obtain ⟨s, result, ha, hp⟩ := Registry.act_eq_some hok
    exact .played hp rfl
  | cancel => exact .alike l.games.alike_cancel (by simp)

theorem Consistent.deletion (h : l.Consistent) (hstep : l.Step ds (some (.route n m)) l' ds')
    (hk : m.kind = .gameDeleted) : l'.games.Gone n ∧ ∃ id, m.gameId = some id ∧
      l'.games.contains id = false := by
  have hc := h.change hstep
  generalize l'.games = games at hc ⊢
  cases hc with
  | alike same quiet => exact (quiet n m rfl).elim
  | opened opens free quiet => exact (quiet n m rfl).elim
  | played plays quiet => cases quiet
  | taken takes deed lasting =>
    obtain ⟨rfl, rfl⟩ := Deed.route.inj (Option.some.inj deed)
    exact (lasting hk).elim
  | @deleted k o id r' r'' takes deed kind about room removes =>
    obtain ⟨rfl, rfl⟩ := Deed.route.inj (Option.some.inj deed)
    have hgone := h.gone takes hk
    refine ⟨⟨removes.started ▸ hgone.started, (removes.game? n).trans hgone.game?,
      (removes.underway n).trans hgone.underway⟩, id, about, ?_⟩
    rw [Registry.contains, removes.rooms, Table.contains, Table.get?_erase, if_pos rfl]
    rfl

end Lobby

namespace Server

variable {s s' : Server} {mv : Move} {mvs : List Move} {m : Message} {n : Nat}

theorem Fresh.consistent (h : s.Fresh) : s.lobby.Consistent := by
  have hunder (n : Nat) : s.lobby.games.underway n = [] := by
    rw [Registry.underway, h.reports]
    rfl
  refine ⟨by rw [h.rooms]; rfl, fun hid => ?_, fun hg => ?_, fun hm => ?_, fun hid => ?_,
    fun hi => ?_, fun hs => ?_⟩
  · rw [h.rooms] at hid
    cases hid
  · rw [Registry.game?, h.sessions] at hg
    cases hg
  · rw [hunder] at hm
    cases hm
  · rw [h.rooms] at hid
    cases hid
  · rw [h.infos] at hi
    cases hi
  · rw [Lobby.gameOf, h.guests] at hs
    cases hs

theorem consistent_run (h : s.lobby.Consistent) (hrun : s.run mvs = some s') :
    s'.lobby.Consistent :=
  run_induction (P := (·.lobby.Consistent)) (fun hs hmv => hs.step (move_step hmv)) h hrun

theorem gone_run (h : s.lobby.Consistent) (hg : s.lobby.games.Gone n)
    (hrun : s.run mvs = some s') : s'.lobby.games.Gone n := by
  have hboth : s'.lobby.Consistent ∧ s'.lobby.games.Gone n :=
    run_induction (P := fun s => s.lobby.Consistent ∧ s.lobby.games.Gone n)
      (fun hs hmv => ⟨hs.1.step (move_step hmv),
        (hs.2.change (hs.1.change (move_step hmv))).1⟩) ⟨h, hg⟩ hrun
  exact hboth.2

theorem silent_of_gone (h : s.lobby.Consistent) (hg : s.lobby.games.Gone n) (mvs : List Move)
    (m : Message) : .route n m ∉ s.deeds mvs := by
  induction mvs generalizing s with
  | nil => exact List.not_mem_nil
  | cons mv mvs ih =>
    rw [deeds]
    split
    · rename_i t ht
      have hstep := move_step ht
      obtain ⟨hg', hquiet⟩ := hg.change (h.change hstep)
      intro hm
      obtain hm | hm := List.mem_append.1 hm
      · exact hquiet m (Option.mem_toList.1 hm)
      · exact ih (h.step hstep) hg' hm
    · exact List.not_mem_nil

theorem gone_of_mem_deeds (h : s.lobby.Consistent) (hrun : s.run mvs = some s')
    (hm : .route n m ∈ s.deeds mvs) (hk : m.kind = .gameDeleted) : s'.lobby.games.Gone n := by
  induction mvs generalizing s with
  | nil => exact (List.not_mem_nil hm).elim
  | cons mv mvs ih =>
    obtain ⟨t, ht, hrun⟩ := run_cons.1 hrun
    have hstep := move_step ht
    have hnext := h.step hstep
    rw [deeds_cons ht] at hm
    obtain hm | hm := List.mem_append.1 hm
    · rw [Option.mem_toList.1 hm] at hstep
      exact gone_run hnext (h.deletion hstep hk).1 hrun
    · exact ih hnext hrun hm

theorem room_of_run {P : Nat → Prop} (h : s.lobby.Consistent) (hrun : s.run mvs = some s')
    (hP : ∀ n m, .route n m ∈ s.deeds mvs → m.kind = .gameDeleted → P n)
    (hs : ∀ n < s.lobby.games.started, (∃ id, s.lobby.games.rooms.get? id = some n) ∨ P n) :
    ∀ n < s'.lobby.games.started, (∃ id, s'.lobby.games.rooms.get? id = some n) ∨ P n := by
  induction mvs generalizing s with
  | nil => exact Option.some.inj hrun ▸ hs
  | cons mv mvs ih =>
    obtain ⟨t, ht, hrun⟩ := run_cons.1 hrun
    have hstep := move_step ht
    rw [deeds_cons ht] at hP
    refine ih (h.step hstep) hrun (fun n m hm => hP n m (List.mem_append_right _ hm)) fun n hn => ?_
    obtain hid | ⟨m, hm, hk⟩ | ⟨hn, hnone⟩ := (h.change hstep).room hn
    · exact .inl hid
    · exact .inr (hP n m (List.mem_append_left _ (Option.mem_toList.2 hm)) hk)
    · exact (hs n hn).imp_left fun ⟨id, hid⟩ => (hnone id hid).elim

theorem keeps_room_run {id : GameId} (h : s.lobby.Consistent) (hrun : s.run mvs = some s')
    (hroom : s.lobby.games.rooms.get? id = some n) : s'.lobby.games.rooms.get? id = some n ∨
      ∃ m, .route n m ∈ s.deeds mvs ∧ m.kind = .gameDeleted := by
  induction mvs generalizing s with
  | nil => exact Option.some.inj hrun ▸ .inl hroom
  | cons mv mvs ih =>
    obtain ⟨t, ht, hrun⟩ := run_cons.1 hrun
    have hstep := move_step ht
    rw [deeds_cons ht]
    obtain hroom | ⟨m, hm, hk⟩ := (h.change hstep).keeps_room hroom
    · obtain hroom | ⟨m, hm, hk⟩ := ih (h.step hstep) hrun hroom
      · exact .inl hroom
      · exact .inr ⟨m, List.mem_append_right _ hm, hk⟩
    · exact .inr ⟨m, List.mem_append_left _ (Option.mem_toList.2 hm), hk⟩

theorem keeps_out_run {id : GameId} (h : s.lobby.Consistent) (hrun : s.run mvs = some s')
    (hn : n < s.lobby.games.started) (hroom : s.lobby.games.rooms.get? id ≠ some n) :
    s'.lobby.games.rooms.get? id ≠ some n := by
  have hall : s'.lobby.Consistent ∧ n < s'.lobby.games.started ∧
      s'.lobby.games.rooms.get? id ≠ some n :=
    run_induction (P := fun s => s.lobby.Consistent ∧ n < s.lobby.games.started ∧
      s.lobby.games.rooms.get? id ≠ some n)
      (fun hs hmv => ⟨hs.1.step (move_step hmv),
        (hs.1.change (move_step hmv)).keeps_out hs.2.1 hs.2.2⟩) ⟨h, hn, hroom⟩ hrun
  exact hall.2.2

/-- A game that is not deleted has the room of its id to itself, whatever else goes on. What is
known of the games, with what is under way, is what is true of them. -/
theorem registry_consistent {s₀ : Server} (h₀ : s₀.Fresh) (hrun : s₀.run mvs = some s) :
    (∀ socket id, s.lobby.gameOf socket = some id → s.lobby.games.contains id) ∧
    (∀ id, s.lobby.infos.contains id → s.lobby.games.contains id) ∧
    (∀ n < s.lobby.games.started, (∃ id, s.lobby.games.rooms.get? id = some n) ↔
      ∀ m, .route n m ∈ s₀.deeds mvs → m.kind ≠ .gameDeleted) ∧
    (∀ id n, s.lobby.games.rooms.get? id = some n → ∃ now, s.lobby.games.Stands n now ∧
      now.id = id ∧ (now.players ≠ [] →
        ((s.lobby.games.underway n).foldl Lobby.absorb s.lobby.infos).get? id = some now)) ∧
    ∀ mv s' n m, s.move mv = some s' → s.deed? mv = some (.route n m) → m.kind = .gameDeleted →
      ∃ id, m.gameId = some id ∧ s'.lobby.games.contains id = false ∧
        s'.lobby.infos.contains id = false ∧ (∀ socket, s'.lobby.gameOf socket ≠ some id) ∧
        ∀ mvs' m', .route n m' ∉ s'.deeds mvs' := by
  have h := consistent_run h₀.consistent hrun
  refine ⟨fun _ _ => h.guests, fun _ => h.infos, fun n hn => ⟨fun ⟨id, hid⟩ m hm hk => ?_,
    fun hkept => ?_⟩, fun _ _ => h.rooms, fun mv s' n m hmv hdeed hk => ?_⟩
  · have hgone := gone_of_mem_deeds h₀.consistent hrun hm hk
    obtain ⟨now, hstands, -⟩ := h.rooms hid
    cases hstands with
    | working game => cases hgone.game?.symm.trans game
    | ended game underway =>
      have hnil := hgone.underway.symm.trans underway
      simp at hnil
  · have hrooms := room_of_run (P := fun n => ∃ m, .route n m ∈ s₀.deeds mvs ∧
      m.kind = .gameDeleted) h₀.consistent hrun (fun n m hm hk => ⟨m, hm, hk⟩)
      fun n hn => by rw [h₀.started] at hn; cases hn
    exact (hrooms n hn).resolve_right fun ⟨m, hm, hk⟩ => hkept m hm hk
  · have hstep := move_step hmv
    rw [hdeed] at hstep
    have h' := h.step hstep
    obtain ⟨hgone, id, hid, hfree⟩ := h.deletion hstep hk
    refine ⟨id, hid, hfree, Bool.of_not_eq_true fun hi => ?_, fun socket hs => ?_,
      silent_of_gone h' hgone⟩
    · cases hfree.symm.trans (h'.infos hi)
    · cases hfree.symm.trans (h'.guests hs)

def farewell : List Move :=
  arrival ++ seating ++ say 0 "[4]" ++
    [.act .duty, .act (.game 0 .handle), .act (.route 0), .act .duty, .act (.line 0 .writeNext)]

theorem registry_consistent_farewell : ∃ s s' m, vacant.Fresh ∧ vacant.run farewell = some s ∧
    s.lobby.games.contains 1 ∧ s.lobby.infos.contains 1 ∧
    s.move (.act (.route 0)) = some s' ∧ s.deed? (.act (.route 0)) = some (.route 0 m) ∧
    m.kind = .gameDeleted ∧ m.gameId = some 1 ∧ s'.lobby.games.contains 1 = false ∧
    s'.lobby.infos.contains 1 = false ∧ ∀ mvs' m', .route 0 m' ∉ s'.deeds mvs' := by
  have hrun : vacant.run farewell = some _ := rfl
  obtain ⟨-, -, -, -, hdeleted⟩ := registry_consistent fresh_vacant hrun
  obtain ⟨id, hid, hfree, hgone, -, hquiet⟩ :=
    hdeleted (.act (.route 0)) _ 0 _ rfl rfl rfl
  obtain rfl : 1 = id := Option.some.inj hid
  exact ⟨_, _, _, fresh_vacant, hrun, rfl, rfl, rfl, rfl, rfl, rfl, hfree, hgone, hquiet⟩

end Server

end TileRace
