import TileRace.Proofs.Server.Deletion

namespace TileRace

def told (socket : SocketId) (deeds : List Deed) : List Message := deeds.filterMap fun
  | .tell k m => if k = socket then some m else none
  | _ => none

/-- What the lobby has yet to send to a connection, as far as it knows by now. -/
def owed (socket : SocketId) (duties : List Duty) : List Message := duties.filterMap fun
  | .tell k m => if k = socket then some m else none
  | .pass .. => none

/-- The lobby and the clients, who saw so much of what it sent, do not disagree on who is in which
game once its duties are done. -/
structure Lobby.Tracks (seen : SocketId → Option GameId) (l : Lobby) (ds : List Duty) : Prop where
  owed k : l.guests.contains k ∨ l.lastSocket < k → (owed k ds).foldl track (seen k) = l.gameOf k
  answers {n m k a} : .pass n m k a ∈ ds → a.kind ≠ .joinGame ∧ a.kind ≠ .leaveGame
  known {k} : l.guests.contains k → k ≤ l.lastSocket

section Sending

variable {k socket : SocketId} {m : Message} {ds : List Duty} {game : Option GameId}

theorem told_append (ds ds' : List Deed) : told k (ds ++ ds') = told k ds ++ told k ds' :=
  List.filterMap_append ..

theorem owed_append (ds ds' : List Duty) : owed k (ds ++ ds') = owed k ds ++ owed k ds' :=
  List.filterMap_append ..

theorem owed_tell (ds : List Duty) :
    owed k (.tell socket m :: ds) = (if socket = k then [m] else []) ++ owed k ds := by
  rw [owed, List.filterMap_cons]
  by_cases h : socket = k <;> simp [h, owed]

theorem told_tell : told k [.tell socket m] = if socket = k then [m] else [] := by
  rw [told, List.filterMap_cons]
  by_cases h : socket = k <;> simp [h]

theorem owed_map_tell {sockets : List SocketId} (hd : sockets.Nodup) (m : Message) :
    owed k (sockets.map (.tell · m)) = if k ∈ sockets then [m] else [] := by
  induction sockets with
  | nil => rfl
  | cons s sockets ih =>
    obtain ⟨hs, hd⟩ := List.nodup_cons.1 hd
    rw [List.map_cons, owed_tell, ih hd]
    by_cases h : s = k
    · subst h
      simp [hs]
    · simp [h, Ne.symm h]

theorem foldl_track_owed (h : ∀ d ∈ ds, ∃ (s : SocketId) (o : Message), d = .tell s o ∧
    o.kind = .gameInfos) : (owed k ds).foldl track game = game := by
  induction ds with
  | nil => rfl
  | cons d ds ih =>
    obtain ⟨s, o, rfl, ho⟩ := h d List.mem_cons_self
    have hsame : (if s = k then [o] else []).foldl track game = game := by
      split
      · exact track_of_ne (by simp [ho]) (by simp [ho])
      · rfl
    rw [owed_tell, List.foldl_append, hsame, ih fun d hd => h d (List.mem_cons_of_mem _ hd)]

end Sending

namespace Lobby

variable {l l' : Lobby} {m : Message} {ds ds' : List Duty} {d : Option Deed} {now : Nat}
  {seen : SocketId → Option GameId}

theorem Receives.follows (hr : l.Receives now m l' ds) (k : SocketId) :
    (TileRace.owed k ds).foldl track (l.gameOf k) = l'.gameOf k := by
  cases hr with
  | dropped | created | passed => rfl
  | @left socket sent kind =>
    rw [owed_tell, gameOf_setGame_none]
    by_cases hk : k = socket
    · subst hk
      rw [if_pos rfl, if_pos rfl]
      exact if_pos (.inr rfl)
    · rw [if_neg (Ne.symm hk), if_neg hk]
      rfl
  | answered sent kind joins leaves =>
    rw [owed_tell]
    split
    · exact track_of_ne joins leaves
    · rfl

theorem Deletes.follows {id : GameId} {stranded : List SocketId} (hd : l.Deletes id stranded l')
    (k : SocketId) : (TileRace.owed k (stranded.map (.tell · (deletedNotice id)) ++
      l'.broadcastInfos)).foldl track (l.gameOf k) = l'.gameOf k := by
  rw [owed_append, List.foldl_append, foldl_track_owed fun d => kind_broadcastInfos l',
    owed_map_tell hd.nodup, hd.gameOf]
  by_cases hk : l.gameOf k = some id
  · rw [if_pos ((hd.stranded k).2 hk), if_pos hk]
    exact (track_leaveGame (m := deletedNotice id) rfl rfl).trans (if_pos hk)
  · rw [if_neg fun h => hk ((hd.stranded k).1 h), if_neg hk]
    rfl

theorem Routes.follows {targets : List SocketId} (hr : l.Routes m targets l') (k : SocketId) :
    (TileRace.owed k (targets.map (.tell · m))).foldl track (l.gameOf k) = l'.gameOf k := by
  rw [owed_map_tell hr.nodup, hr.gameOf]
  split <;> rfl

theorem Reports.follows (hr : l.Reports m l' ds) (k : SocketId) :
    (TileRace.owed k ds).foldl track (l.gameOf k) = l'.gameOf k := by
  cases hr with
  | news kind news => exact foldl_track_owed news
  | deleted kind about deletes => exact deletes.follows k
  | routed lasting quiet routes => exact routes.follows k

theorem Receives.moved (hr : l.Receives now m l' ds) :
    l'.lastSocket = l.lastSocket ∧ ∀ k, l'.guests.contains k = l.guests.contains k := by
  cases hr with
  | dropped | created | passed | answered => exact ⟨rfl, fun _ => rfl⟩
  | left => exact ⟨rfl, (moved_setGame _ _ _).contains⟩

theorem Reports.moved (hr : l.Reports m l' ds) :
    l'.lastSocket = l.lastSocket ∧ ∀ k, l'.guests.contains k = l.guests.contains k := by
  cases hr with
  | news => exact ⟨rfl, fun _ => rfl⟩
  | deleted kind about deletes => exact ⟨by rw [deletes.frame], deletes.contains⟩
  | routed lasting quiet routes => exact ⟨by rw [routes.moved.frame], routes.moved.contains⟩

theorem Receives.answers (hr : l.Receives now m l' ds) {n : Nat} {o : Message} {k : SocketId}
    {a : Message} (ha : .pass n o k a ∈ ds) : a.kind ≠ .joinGame ∧ a.kind ≠ .leaveGame := by
  cases hr with
  | dropped => cases ha
  | left | answered => cases List.mem_singleton.1 ha
  | created | passed =>
    obtain ⟨-, -, -, rfl⟩ := Duty.pass.inj (List.mem_singleton.1 ha)
    exact kind_refusal _ _

theorem Reports.passless (hr : l.Reports m l' ds) {n : Nat} {o : Message} {k : SocketId}
    {a : Message} : .pass n o k a ∉ ds := by
  intro ha
  cases hr with
  | news kind news =>
    obtain ⟨_, _, he, -⟩ := news _ ha
    cases he
  | deleted kind about deletes =>
    obtain ha | ha := List.mem_append.1 ha
    · obtain ⟨_, -, he⟩ := List.mem_map.1 ha
      cases he
    · obtain ⟨_, _, he, -⟩ := kind_broadcastInfos _ ha
      cases he
  | routed =>
    obtain ⟨_, -, he⟩ := List.mem_map.1 ha
    cases he

/-- What was seen of a deed adds to what was seen before. -/
def sees (seen : SocketId → Option GameId) (deeds : List Deed) (k : SocketId) : Option GameId :=
  (told k deeds).foldl track (seen k)

theorem sees_append (ds ds' : List Deed) : sees seen (ds ++ ds') = sees (sees seen ds) ds' :=
  funext fun k => by rw [sees, told_append, List.foldl_append, sees, sees]

theorem Tracks.take (h : l.Tracks seen []) (hlast : l'.lastSocket = l.lastSocket)
    (hcontains : ∀ k, l'.guests.contains k = l.guests.contains k)
    (hfollows : ∀ k, (TileRace.owed k ds).foldl track (l.gameOf k) = l'.gameOf k)
    (hanswers : ∀ {n o k a}, .pass n o k a ∈ ds → a.kind ≠ .joinGame ∧ a.kind ≠ .leaveGame) :
    l'.Tracks seen ds where
  owed k hk := by
    rw [hcontains, hlast] at hk
    have hseen : seen k = l.gameOf k := h.owed k hk
    rw [hseen, hfollows]
  answers := hanswers
  known hk := by
    rw [hcontains] at hk
    exact hlast ▸ h.known hk

theorem contains_insert {guest : Guest} {k socket : SocketId} :
    (l.guests.insert socket guest).contains k ↔ k = socket ∨ l.guests.contains k := by
  rw [Table.contains, Table.get?_insert]
  by_cases hk : k = socket <;> simp [hk, Table.contains]

theorem Tracks.enroll {name : String} {socket : SocketId} (h : l.Tracks seen [])
    (hok : l.enroll name = .ok (socket, l', ds)) : l'.Tracks seen ds := by
  have hnew : l.gameOf (l.lastSocket + 1) = none := gameOf_of_not_contains
    (Bool.of_not_eq_true fun hc => Nat.not_succ_le_self _ (h.known hc))
  have hgame (k : SocketId) : l'.gameOf k = l.gameOf k := by
    rw [gameOf_enroll hok]
    split
    · rename_i hk
      rw [hk, hnew]
    · rfl
  obtain ⟨rfl, rfl, -⟩ := enroll_eq_ok hok
  refine ⟨fun k hk => ?_, fun ha => ?_, fun {k} hk => ?_⟩
  · have hseen : seen k = l.gameOf k := by
      refine h.owed k ?_
      obtain hk | hk := hk
      · obtain rfl | hk := contains_insert.1 hk
        · exact .inr (Nat.lt_succ_self _)
        · exact .inl hk
      · exact .inr (Nat.lt_of_succ_lt hk)
    rw [hseen, foldl_track_owed fun d hd => ⟨_, _, List.mem_singleton.1 hd, rfl⟩]
    exact (hgame k).symm
  · cases List.mem_singleton.1 ha
  · obtain hk | hk := contains_insert.1 hk
    · exact Nat.le_of_eq hk
    · exact Nat.le_succ_of_le (h.known hk)

theorem Tracks.forget (h : l.Tracks seen []) (socket : SocketId) :
    (l.forget socket).Tracks seen [] := by
  have hcontains {k : SocketId} (hk : (l.forget socket).guests.contains k) :
      k ≠ socket ∧ l.guests.contains k := by
    rw [Table.contains, Lobby.forget, Table.get?_erase] at hk
    split at hk
    · cases hk
    · exact ⟨‹_›, hk⟩
  refine ⟨fun k hk => ?_, fun ha => (by cases ha), fun hk => h.known (hcontains hk).2⟩
  rw [gameOf_forget]
  obtain hk | hk := hk
  · rw [if_neg (hcontains hk).1]
    exact h.owed k (.inl (hcontains hk).2)
  · rw [h.owed k (.inr hk)]
    have hnone : l.gameOf k = none := gameOf_of_not_contains
      (Bool.of_not_eq_true fun hc => Nat.not_lt.2 (h.known hc) hk)
    rw [hnone, ite_self]

theorem Tracks.tell {socket : SocketId} (h : l.Tracks seen (.tell socket m :: ds)) :
    l.Tracks (sees seen [.tell socket m]) ds where
  owed k hk := by
    have howed := h.owed k hk
    rw [owed_tell, List.foldl_append] at howed
    rwa [sees, told_tell]
  answers ha := h.answers (List.mem_cons_of_mem _ ha)
  known := h.known

theorem Tracks.answer {n : Nat} {socket : SocketId} {answer : Message}
    (h : l.Tracks seen (.pass n m socket answer :: ds)) :
    l.Tracks (sees seen [.tell socket answer]) ds where
  owed k hk := by
    have hsame : sees seen [.tell socket answer] k = seen k := by
      obtain ⟨hj, hl⟩ := h.answers List.mem_cons_self
      rw [sees, told_tell]
      split
      · exact track_of_ne hj hl
      · rfl
    rw [hsame]
    exact h.owed k hk
  answers ha := h.answers (List.mem_cons_of_mem _ ha)
  known := h.known

theorem Tracks.step (h : l.Tracks seen ds) (hl : l.Consistent) (hstep : l.Step ds d l' ds') :
    l'.Tracks (sees seen d.toList) ds' := by
  cases hstep with
  | rest => exact h
  | enroll free hok =>
    subst free
    exact h.enroll hok
  | @hear m _ now free hleft =>
    subst free
    have hr := receives_receive l now m
    exact h.take hr.moved.1 hr.moved.2 hr.follows hr.answers
  | forget socket free =>
    subst free
    exact h.forget _
  | route free hm =>
    subst free
    obtain ⟨-, hr⟩ := hl.reports hm
    exact h.take hr.moved.1 hr.moved.2 hr.follows fun ha => (hr.passless ha).elim
  | tell => exact h.tell
  | pass socket answer ds hok =>
    exact ⟨h.owed, fun ha => h.answers (List.mem_cons_of_mem _ ha), h.known⟩
  | answer => exact h.answer
  | play ds hok => exact ⟨h.owed, h.answers, h.known⟩
  | cancel => exact ⟨h.owed, h.answers, h.known⟩

end Lobby

end TileRace
