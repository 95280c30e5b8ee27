import TileRace.Proofs.Server.Handling

namespace TileRace

def isLeave (id : GameId) (m : Message) : Bool := m.kind = .leaveGame ∧ m.gameId = some id

theorem isLeave_of_kind {id : GameId} {m : Message} (h : m.kind ≠ .leaveGame) :
    isLeave id m = false := by
  simp [isLeave, h]

theorem isLeave_of_gameId {id : GameId} {m : Message} (h : m.gameId ≠ some id) :
    isLeave id m = false := by
  simp [isLeave, h]

theorem countP_owed_infos {id : GameId} {k : SocketId} {ds : List Duty}
    (h : ∀ d ∈ ds, ∃ (s : SocketId) (o : Message), d = .tell s o ∧ o.kind = .gameInfos) :
    (owed k ds).countP (isLeave id) = 0 := by
  refine List.countP_eq_zero.2 fun m hm => ?_
  obtain ⟨d, hd, he⟩ := List.mem_filterMap.1 hm
  obtain ⟨s, o, rfl, ho⟩ := h d hd
  obtain ⟨-, he⟩ := Option.ite_none_right_eq_some.1 he
  obtain rfl := Option.some.inj he
  rw [isLeave_of_kind (by simp [ho])]
  exact Bool.false_ne_true

theorem countP_owed_map_tell {id : GameId} {k : SocketId} {sockets : List SocketId}
    (hd : sockets.Nodup) (m : Message) : (owed k (sockets.map (.tell · m))).countP (isLeave id) =
      if k ∈ sockets ∧ isLeave id m then 1 else 0 := by
  rw [owed_map_tell hd]
  by_cases hk : k ∈ sockets <;> simp [hk, List.countP_singleton]

namespace Registry

/-- A session has ended, and all that is still to be heard of it is that its game is over. -/
structure Parting (r : Registry) (n : Nat) (id : GameId) : Prop where
  ended : r.Over n
  room : r.rooms.get? id = some n
  last : ∀ m ∈ r.underway n, m.kind = .leaveGame ∧ m.socket = none ∨ m.kind = .gameDeleted

theorem Parting.change {r r' : Registry} {d : Option Deed} {n : Nat} {id : GameId}
    (h : r.Parting n id) (hc : r.Change d r')
    (hd : ∀ m, d = some (.route n m) → m.kind ≠ .gameDeleted) : r'.Parting n id where
  ended := (h.ended.change hc).1
  room := (hc.keeps_room h.room).resolve_right fun ⟨m, hm, hk⟩ => hd m hm hk
  last m hm := h.last m ((h.ended.change hc).2 ▸ List.mem_append_right _ hm)

end Registry

namespace Lobby

variable {l l' : Lobby} {m : Message} {ds ds' : List Duty} {d : Option Deed} {now n : Nat}
  {id id' : GameId} {k : SocketId} {sent : List Message}

/-- The connection is gone, or in another game. -/
def Strays (l : Lobby) (id : GameId) (k : SocketId) : Prop :=
  l.guests.contains k = false ∨ ∃ id', l.gameOf k = some id' ∧ id' ≠ id

theorem not_strays (hc : l.guests.contains k) (hg : l.gameOf k = some id ∨ l.gameOf k = none) :
    ¬ l.Strays id k := by
  rintro (hnone | ⟨id', hid', hne⟩)
  · cases hnone.symm.trans hc
  · obtain hg | hg := hg <;> rw [hg] at hid'
    · exact hne (Option.some.inj hid').symm
    · cases hid'

/-- How many notices to leave the game a connection is due: those that the lobby has yet to send,
and one more as long as it is in the game. -/
def due (l : Lobby) (ds : List Duty) (id : GameId) (k : SocketId) : Nat :=
  (owed k ds).countP (isLeave id) + if l.gameOf k = some id then 1 else 0

/-- What is sent to a connection on the way from `l` to `l'` settles what it was due. What it is not
due any more, it was sent, unless it strays. -/
structure Pays (id : GameId) (k : SocketId) (l : Lobby) (ds : List Duty) (sent : List Message)
    (l' : Lobby) (ds' : List Duty) : Prop where
  most : sent.countP (isLeave id) + l'.due ds' id k ≤ l.due ds id k
  exact : ¬ l'.Strays id k → sent.countP (isLeave id) + l'.due ds' id k = l.due ds id k

theorem Pays.of_eq (h : sent.countP (isLeave id) + l'.due ds' id k = l.due ds id k) :
    Pays id k l ds sent l' ds' := ⟨Nat.le_of_eq h, fun _ => h⟩

theorem Pays.of_due (h : l'.due ds' id k = l.due ds id k) : Pays id k l ds [] l' ds' :=
  .of_eq ((Nat.zero_add _).trans h)

theorem due_nil : l.due [] id k = if l.gameOf k = some id then 1 else 0 := Nat.zero_add _

theorem due_congr (hg : l'.gameOf k = some id ↔ l.gameOf k = some id)
    (ho : (owed k ds').countP (isLeave id) = (owed k ds).countP (isLeave id)) :
    l'.due ds' id k = l.due ds id k := by
  simp only [due, hg, ho]

theorem Receives.due_eq (hr : l.Receives now m l' ds) (id : GameId) (k : SocketId) :
    l'.due ds id k = l.due [] id k := by
  cases hr with
  | dropped | created | passed => rfl
  | @left socket sent kind =>
    by_cases hk : socket = k
    · subst hk
      have hleave : isLeave id (l.leaveReply socket m) = decide (l.gameOf socket = some id) := by
        simp [isLeave, leaveReply, Message.reply, Message.ofKind]
      rw [due_nil, due, owed_tell, if_pos rfl, gameOf_setGame_none, if_pos rfl]
      simp [owed, hleave, List.countP_singleton]
    · refine due_congr ?_ ?_
      · rw [gameOf_setGame_none, if_neg (Ne.symm hk)]
      · rw [owed_tell, if_neg hk]
        rfl
  | @answered socket answer sent kind joins leaves =>
    refine due_congr Iff.rfl ?_
    rw [owed_tell]
    split
    · simp [owed, isLeave_of_kind leaves]
    · rfl

theorem Reports.due_eq (hr : l.Reports m l' ds) (about : m.gameId = some id)
    (last : m.kind = .leaveGame ∧ m.socket = none ∨ m.kind = .gameDeleted) (k : SocketId) :
    l'.due ds id k = l.due [] id k := by
  cases hr with
  | news kind =>
    obtain ⟨hk, -⟩ | hk := last <;> cases kind.symm.trans hk
  | @deleted id' stranded l' kind about' deletes =>
    obtain rfl := Option.some.inj (about.symm.trans about')
    have hinfos : (owed k l'.broadcastInfos).countP (isLeave id) = 0 :=
      countP_owed_infos fun d => kind_broadcastInfos l'
    have hnotice : isLeave id (deletedNotice id) := by
      simp [isLeave, deletedNotice, Message.ofKind, Message.withGameId, Message.withInfo]
    rw [due_nil, due, owed_append, List.countP_append, hinfos, countP_owed_map_tell deletes.nodup,
      deletes.gameOf]
    by_cases hg : l.gameOf k = some id <;> simp [hg, deletes.stranded, hnotice]
  | @routed targets l' lasting quiet routes =>
    obtain ⟨hkind, hsocket⟩ := last.resolve_right lasting
    rw [due_nil, due, countP_owed_map_tell routes.nodup, routes.gameOf]
    by_cases hk : k ∈ targets
    · have hg : l.gameOf k = some id := by
        obtain h | h := routes.meant k hk
        · cases hsocket.symm.trans h
        · exact h.trans about
      have hleave : isLeave id m := by simp [isLeave, hkind, about]
      have hout : track (some id) m = none := by
        rw [track_leaveGame hkind (by simp [about]), if_pos about.symm]
      simp [hk, hg, hout, hleave]
    · simp [hk]

theorem Reports.pays (hr : l.Reports m l' ds) (about : m.gameId = some id') (hne : id' ≠ id)
    (k : SocketId) : Pays id k l [] [] l' ds := by
  have hleave : isLeave id m = false := isLeave_of_gameId (by simpa [about] using hne)
  cases hr with
  | news kind news => exact .of_due (due_congr Iff.rfl (countP_owed_infos news))
  | @deleted id'' stranded l' kind about' deletes =>
    obtain rfl := Option.some.inj (about.symm.trans about')
    have hinfos : (owed k l'.broadcastInfos).countP (isLeave id) = 0 :=
      countP_owed_infos fun d => kind_broadcastInfos l'
    have hnotice : isLeave id (deletedNotice id') = false :=
      isLeave_of_gameId fun h => hne (Option.some.inj h)
    refine .of_due (due_congr ?_ ?_)
    · rw [deletes.gameOf]
      split
      · rename_i hg
        simp [hg, hne]
      · rfl
    · rw [owed_append, List.countP_append, hinfos, countP_owed_map_tell deletes.nodup, hnotice]
      simp [owed]
  | @routed targets l' lasting quiet routes =>
    have howed : (owed k (targets.map (.tell · m))).countP (isLeave id) = 0 := by
      rw [countP_owed_map_tell routes.nodup, hleave]
      simp
    have hgame := routes.gameOf k
    by_cases hk : k ∈ targets
    · rw [if_pos hk] at hgame
      by_cases hj : m.kind = .joinGame
      -- the connection joins the other game
      · rw [track_joinGame hj (by simp [about]), about] at hgame
        have hnone : l'.due (targets.map (.tell · m)) id k = 0 := by
          rw [due, howed, hgame, if_neg (by simpa using hne)]
        refine ⟨?_, fun h => (h (.inr ⟨id', hgame, hne⟩)).elim⟩
        rw [hnone]
        exact Nat.zero_le _
      · refine .of_due (due_congr ?_ howed)
        by_cases hl : m.kind = .leaveGame
        · rw [hgame, track_leaveGame hl (by simp [about]), about]
          split
          · rename_i hg
            simp [hg, hne]
          · rfl
        · rw [hgame, track_of_ne hj hl]
    · rw [if_neg hk] at hgame
      exact .of_due (due_congr (by rw [hgame]) howed)

/-- Whatever happens while the last messages of a game are under way, nobody is told to leave it
who is not in it, and nobody who is in it gets out of it untold. -/
theorem Step.pays {seen : SocketId → Option GameId} (hstep : l.Step ds d l' ds')
    (hl : l.Consistent) (ht : l.Tracks seen ds) (hp : l.games.Parting n id) (k : SocketId) :
    Pays id k l ds (told k d.toList) l' ds' := by
  cases hstep with
  | rest | play | cancel => exact .of_due rfl
  | enroll free hok =>
    subst free
    have hgame := gameOf_enroll (k := k) hok
    have hnew : l.gameOf (l.lastSocket + 1) = none := gameOf_of_not_contains
      (Bool.of_not_eq_true fun hc => Nat.not_succ_le_self _ (ht.known hc))
    obtain ⟨-, rfl, -⟩ := enroll_eq_ok hok
    refine .of_due (due_congr ?_ ?_)
    · rw [hgame]
      split
      · rename_i hk
        rw [hk, hnew]
      · rfl
    · exact countP_owed_infos fun d hd => ⟨_, _, List.mem_singleton.1 hd, rfl⟩
  | @hear m _ now free hleft =>
    subst free
    exact .of_due ((receives_receive l now m).due_eq id k)
  | forget socket free =>
    subst free
    have hgame : (l.forget socket).gameOf k = if k = socket then none else l.gameOf k :=
      gameOf_forget
    by_cases hk : k = socket
    · rw [if_pos hk] at hgame
      have hgone : (l.forget socket).guests.contains k = false := by
        rw [Table.contains, Lobby.forget, Table.get?_erase, if_pos hk]
        rfl
      refine ⟨?_, fun h => (h (.inl hgone)).elim⟩
      change 0 + (0 + if _ then 1 else 0) ≤ _
      rw [hgame]
      exact Nat.zero_le _
    · rw [if_neg hk] at hgame
      exact .of_due (due_congr (by rw [hgame]) rfl)
  | @route n' m games _ free hm =>
    subst free
    obtain ⟨htakes, hr⟩ := hl.reports hm
    have hmem : m ∈ l.games.underway n' := htakes.head ▸ List.mem_cons_self
    obtain ⟨id', hid', hroom, -⟩ := hl.underway hmem
    by_cases hn : n' = n
    · subst hn
      obtain rfl := hl.unique hp.room hroom
      exact .of_due (hr.due_eq hid' (hp.last m hmem) k)
    · have hne : id' ≠ id := by
        rintro rfl
        exact hn (Option.some.inj (hroom.symm.trans hp.room))
      exact ⟨(hr.pays hid' hne k).most, (hr.pays hid' hne k).exact⟩
  | tell socket m =>
    refine .of_eq ?_
    rw [due, due, owed_tell, List.countP_append, Option.toList, told_tell, Nat.add_assoc]
  | pass socket answer ds hok => exact .of_due rfl
  | @answer n' m socket answer ds hok =>
    refine .of_eq ?_
    have hnone : (told k [.tell socket answer]).countP (isLeave id) = 0 := by
      rw [told_tell]
      split
      · rw [List.countP_singleton, isLeave_of_kind (ht.answers List.mem_cons_self).2]
        rfl
      · rfl
    rw [Option.toList, hnone, Nat.zero_add]
    rfl

def Filed (l : Lobby) : Prop := ∀ id info, l.infos.get? id = some info → info.id = id

theorem Filed.step (h : l.Filed) (hl : l.Consistent) (hstep : l.Step ds d l' ds') : l'.Filed := by
  cases hstep with
  | rest | forget | tell | pass | answer | play | cancel => exact h
  | enroll free hok =>
    obtain ⟨rfl, -⟩ := enroll_eq_ok hok
    exact h
  | @hear m _ now free hleft => rwa [Filed, Server.infos_receive]
  | @route _ m games _ free hm =>
    obtain ⟨-, hr⟩ := hl.reports hm
    generalize ({ l with games }.report m).1 = l', ({ l with games }.report m).2 = ds' at hr ⊢
    cases hr with
    | news kind =>
      intro id info hinfo
      rw [absorb] at hinfo
      split at hinfo
      · rw [Table.get?_insert] at hinfo
        split at hinfo
        · rename_i hid
          rw [← Option.some.inj hinfo, hid]
        · exact h id info hinfo
      · exact h id info hinfo
    | deleted kind about deletes =>
      intro id info hinfo
      rw [deletes.frame, Table.get?_erase] at hinfo
      split at hinfo
      · cases hinfo
      · exact h id info hinfo
    | routed lasting quiet routes =>
      rw [Filed, routes.moved.frame]
      exact h

theorem owed_broadcastInfos (l : Lobby) (k : SocketId) :
    owed k l.broadcastInfos = if l.guests.contains k then [l.infosMessage] else [] := by
  have hmem : k ∈ l.guests.keys ↔ l.guests.contains k := by
    rw [Table.mem_keys, Table.contains, Option.isSome_iff_exists]
  simp only [broadcastInfos, owed_map_tell l.guests.keys_nodup, hmem]

theorem Step.deletion_owed (hstep : l.Step ds (some (.route n m)) l' ds') (hl : l.Consistent)
    (hk : m.kind = .gameDeleted) (about : m.gameId = some id) :
    (∀ d ∈ ds', ∃ k o, d = .tell k o) ∧ l'.infos = l.infos.erase id ∧
    ∀ k, owed k ds' = (if l.gameOf k = some id then [deletedNotice id] else []) ++
      if l'.guests.contains k then [l'.infosMessage] else [] := by
  cases hstep with
  | @route _ _ games _ free hm =>
    obtain ⟨-, hr⟩ := hl.reports hm
    generalize ({ l with games }.report m).1 = l', ({ l with games }.report m).2 = ds' at hr
    cases hr with
    | news kind => cases hk.symm.trans kind
    | routed lasting => exact (lasting hk).elim
    | @deleted id' stranded _ kind about' deletes =>
      obtain rfl := Option.some.inj (about.symm.trans about')
      refine ⟨fun d hd => ?_, by rw [deletes.frame], fun k => ?_⟩
      · obtain hd | hd := List.mem_append.1 hd <;> obtain ⟨k, -, rfl⟩ := List.mem_map.1 hd <;>
          exact ⟨k, _, rfl⟩
      · have hgame : k ∈ stranded ↔ l.gameOf k = some id := deletes.stranded k
        rw [owed_append, owed_map_tell deletes.nodup, owed_broadcastInfos]
        simp only [hgame]

end Lobby

end TileRace
