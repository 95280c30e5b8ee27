import TileRace.Connection.Link
import TileRace.Lobby
import TileRace.Proofs.Table

namespace TileRace

theorem track_joinGame {game : Option GameId} {m : Message} (hk : m.kind = .joinGame)
    (hm : m.gameId.isSome) : track game m = m.gameId := by
  simp only [track, hk, if_pos hm]

theorem track_leaveGame {game : Option GameId} {m : Message} (hk : m.kind = .leaveGame)
    (hm : m.gameId.isSome) : track game m = if game = m.gameId then none else game := by
  have hsome : m.gameId.isNone = false := by simpa using hm
  simp only [track, hk, hsome, Bool.false_eq_true, false_or]

theorem track_of_ne {game : Option GameId} {m : Message} (hj : m.kind ≠ .joinGame)
    (hl : m.kind ≠ .leaveGame) : track game m = game := by
  rw [track]
  split
  · exact (hj ‹_›).elim
  · exact (hl ‹_›).elim
  · rfl

namespace Lobby

def gameOf (l : Lobby) (socket : SocketId) : Option GameId := (l.guests.get? socket).bind (·.game)

/-- What a message from a game does to the list of games. -/
def absorb (infos : Table GameId Summary) (m : Message) : Table GameId Summary :=
  match m.kind, m.game with
  | .gameInfoChanged, some info => infos.insert info.id info
  | _, _ => infos

structure Moved (l l' : Lobby) : Prop where
  frame : l' = { l with guests := l'.guests }
  contains : ∀ k, l'.guests.contains k = l.guests.contains k

variable {l l' : Lobby} {m : Message} {socket k : SocketId} {game : Option GameId} {id : GameId}

theorem Moved.refl (l : Lobby) : l.Moved l := ⟨rfl, fun _ => rfl⟩

theorem Moved.trans {l'' : Lobby} (h : l.Moved l') (h' : l'.Moved l'') : l.Moved l'' where
  frame := by rw [h'.frame, h.frame]
  contains k := (h'.contains k).trans (h.contains k)

theorem gameOf_of_not_contains (h : l.guests.contains k = false) : l.gameOf k = none := by
  rw [gameOf, Option.isSome_eq_false_iff.1 h |> Option.isNone_iff_eq_none.1]
  rfl

theorem moved_setGame (l : Lobby) (socket : SocketId) (game : Option GameId) :
    l.Moved (l.setGame socket game) := by
  refine ⟨rfl, fun k => ?_⟩
  rw [Table.contains, setGame, Table.get?_modify, Table.contains]
  split
  · exact Option.isSome_map
  · rfl

theorem gameOf_setGame (h : l.guests.contains socket) :
    (l.setGame socket game).gameOf k = if k = socket then game else l.gameOf k := by
  rw [gameOf, setGame, Table.get?_modify, gameOf]
  split
  · rename_i hk
    obtain ⟨g, hg⟩ := Option.isSome_iff_exists.1 h
    rw [hk, hg]
    rfl
  · rfl

theorem gameOf_setGame_none :
    (l.setGame socket none).gameOf k = if k = socket then none else l.gameOf k := by
  cases h : l.guests.contains socket with
  | true => exact gameOf_setGame h
  | false =>
    rw [gameOf, setGame, Table.get?_modify, gameOf]
    split
    · cases l.guests.get? k <;> rfl
    · rfl

theorem moved_follow (l : Lobby) (m : Message) (socket : SocketId) :
    l.Moved (l.follow m socket) := by
  rw [follow]
  split
  · exact moved_setGame _ _ _
  · split
    · exact moved_setGame _ _ _
    · exact .refl l
  · exact .refl l

theorem gameOf_follow (hm : m.gameId.isSome) (h : l.guests.contains socket) :
    (l.follow m socket).gameOf k = if k = socket then track (l.gameOf k) m else l.gameOf k := by
  rw [follow]
  split
  · rename_i hk
    rw [gameOf_setGame h, track_joinGame hk hm]
  · rename_i hk
    rw [track_leaveGame hk hm]
    by_cases hs : k = socket
    · subst hs
      rw [if_pos rfl]
      split <;> rename_i hg
      · rw [gameOf_setGame_none, if_pos rfl]
        exact (if_pos hg).symm
      · exact (if_neg hg).symm
    · rw [if_neg hs]
      split
      · rw [gameOf_setGame_none, if_neg hs]
      · rfl
  · rename_i hj hl
    rw [track_of_ne hj hl, ite_self]

theorem moved_foldl_follow (l : Lobby) (m : Message) (sockets : List SocketId) :
    l.Moved (sockets.foldl (·.follow m ·) l) := by
  induction sockets generalizing l with
  | nil => exact .refl l
  | cons s sockets ih => exact (moved_follow l m s).trans (ih _)

theorem gameOf_foldl_follow (hm : m.gameId.isSome) {sockets : List SocketId}
    (hd : sockets.Nodup) (hs : ∀ s ∈ sockets, l.guests.contains s) :
    (sockets.foldl (·.follow m ·) l).gameOf k =
      if k ∈ sockets then track (l.gameOf k) m else l.gameOf k := by
  induction sockets generalizing l with
  | nil => rfl
  | cons s sockets ih =>
    obtain ⟨hs', hd⟩ := List.nodup_cons.1 hd
    rw [List.foldl_cons, ih hd fun x hx => by
      rw [(moved_follow l m s).contains]
      exact hs x (List.mem_cons_of_mem _ hx)]
    rw [gameOf_follow hm (hs s List.mem_cons_self)]
    by_cases hk : k = s
    · rw [if_pos hk, if_neg (hk ▸ hs'), if_pos (hk ▸ List.mem_cons_self)]
    · simp [hk]

theorem moved_foldl_none (l : Lobby) (sockets : List SocketId) :
    l.Moved (sockets.foldl (·.setGame · none) l) := by
  induction sockets generalizing l with
  | nil => exact .refl l
  | cons s sockets ih => exact (moved_setGame l s none).trans (ih _)

theorem gameOf_foldl_none {sockets : List SocketId} :
    (sockets.foldl (·.setGame · none) l).gameOf k = if k ∈ sockets then none else l.gameOf k := by
  induction sockets generalizing l with
  | nil => rfl
  | cons s sockets ih =>
    rw [List.foldl_cons, ih, gameOf_setGame_none]
    by_cases hk : k = s <;> simp [hk]

theorem gameOf_forget :
    (l.forget socket).gameOf k = if k = socket then none else l.gameOf k := by
  rw [gameOf, forget, Table.get?_erase]
  split <;> rfl

theorem mem_keys_filter {p : SocketId × Guest → Bool} :
    k ∈ (l.guests.entries.filter p).map (·.1) ↔ ∃ g, l.guests.get? k = some g ∧ p (k, g) := by
  simp [Table.get?_eq_some_iff]

theorem nodup_keys_filter (l : Lobby) (p : SocketId × Guest → Bool) :
    ((l.guests.entries.filter p).map (·.1)).Nodup :=
  l.guests.keys_nodup.sublist (List.filter_sublist.map _)

/-- Whom a message from a game reaches, and where that puts them. -/
structure Routes (l : Lobby) (m : Message) (targets : List SocketId) (l' : Lobby) : Prop where
  moved : l.Moved l'
  nodup : targets.Nodup
  meant : ∀ k ∈ targets, m.socket = some k ∨ l.gameOf k = m.gameId
  gameOf : ∀ k, l'.gameOf k = if k ∈ targets then track (l.gameOf k) m else l.gameOf k

theorem targets_spec (l : Lobby) (name : String) (m : Message) : (l.targets name m).Nodup ∧
    (∀ k ∈ l.targets name m, l.guests.contains k) ∧
    ∀ k ∈ l.targets name m, m.socket = some k ∨ l.gameOf k = m.gameId := by
  rw [targets]
  split
  · rename_i s hs
    obtain ⟨hs, hany⟩ := Option.filter_eq_some_iff.1 hs
    obtain ⟨g, hg, -⟩ := (Option.any_eq_true _ _).1 hany
    refine ⟨by simp, fun k hk => ?_, fun k hk => ?_⟩ <;>
      rw [List.mem_singleton.1 hk]
    · rw [Table.contains, hg]
      rfl
    · exact .inl hs
  · refine ⟨nodup_keys_filter _ _, fun k hk => ?_, fun k hk => ?_⟩ <;>
      obtain ⟨g, hg, hp⟩ := mem_keys_filter.1 hk
    · rw [Table.contains, hg]
      rfl
    · rw [Lobby.gameOf, hg]
      exact .inr (of_decide_eq_true hp).2

theorem routes_route (hm : m.gameId.isSome) : ∃ targets,
    (l.route m).2 = targets.map (.tell · m) ∧ l.Routes m targets (l.route m).1 := by
  rw [route]
  split
  · exact ⟨[], rfl, .refl l, List.nodup_nil, by simp, fun _ => rfl⟩
  · rename_i name hname
    obtain ⟨hd, hs, hmeant⟩ := l.targets_spec name m
    exact ⟨_, rfl, moved_foldl_follow _ _ _, hd, hmeant, fun k => gameOf_foldl_follow hm hd hs⟩

/-- A game that is gone is taken off every list, and nobody is in it any more. -/
structure Deletes (l : Lobby) (id : GameId) (stranded : List SocketId) (l' : Lobby) : Prop where
  frame : l' = { l with guests := l'.guests, games := l.games.remove id, infos := l.infos.erase id }
  contains : ∀ k, l'.guests.contains k = l.guests.contains k
  nodup : stranded.Nodup
  stranded : ∀ k, k ∈ stranded ↔ l.gameOf k = some id
  gameOf : ∀ k, l'.gameOf k = if l.gameOf k = some id then none else l.gameOf k

theorem gameOf_eq_some {id : GameId} :
    l.gameOf k = some id ↔ ∃ g, l.guests.get? k = some g ∧ g.game = some id :=
  Option.bind_eq_some_iff

theorem deletes_deleted (l : Lobby) (id : GameId) : ∃ stranded,
    l.Deletes id stranded (l.deleted id).1 ∧ (l.deleted id).2 =
      stranded.map (.tell · (deletedNotice id)) ++ (l.deleted id).1.broadcastInfos := by
  have hmem (k : SocketId) :
      k ∈ (l.guests.entries.filter fun e => e.2.game = some id).map (·.1) ↔
        l.gameOf k = some id := by
    simp only [mem_keys_filter, gameOf_eq_some, decide_eq_true_eq]
  have hmoved := moved_foldl_none l
    ((l.guests.entries.filter fun e => e.2.game = some id).map (·.1))
  refine ⟨_, ⟨?_, hmoved.contains, nodup_keys_filter _ _, hmem, fun k => ?_⟩, rfl⟩
  · rw [deleted]
    dsimp only
    rw [hmoved.frame]
  · exact gameOf_foldl_none.trans (by simp only [hmem])

/-- All that can come of a message from a game. -/
inductive Reports (l : Lobby) (m : Message) : Lobby → List Duty → Prop where
  | news {ds} (kind : m.kind = .gameInfoChanged) (news : ∀ d ∈ ds, ∃ (k : SocketId) (o : Message),
    d = .tell k o ∧ o.kind = .gameInfos) :
    Reports l m { l with infos := absorb l.infos m } ds
  | deleted {id : GameId} {stranded} {l' : Lobby} (kind : m.kind = .gameDeleted)
    (about : m.gameId = some id) (deletes : l.Deletes id stranded l') :
    Reports l m l' (stranded.map (.tell · (deletedNotice id)) ++ l'.broadcastInfos)
  | routed {targets} {l' : Lobby} (lasting : m.kind ≠ .gameDeleted)
    (quiet : m.kind ≠ .gameInfoChanged) (routes : l.Routes m targets l') :
    Reports l m l' (targets.map (.tell · m))

theorem kind_broadcastInfos (l : Lobby) {d : Duty} (hd : d ∈ l.broadcastInfos) :
    ∃ k o, d = .tell k o ∧ o.kind = .gameInfos := by
  obtain ⟨k, -, rfl⟩ := List.mem_map.1 hd
  exact ⟨k, _, rfl, rfl⟩

theorem reports_report (hm : m.gameId.isSome) : l.Reports m (l.report m).1 (l.report m).2 := by
  rw [report]
  split
  · rename_i hk
    cases hg : m.game with
    | none =>
      have hempty : l.Reports m { l with infos := absorb l.infos m } [] := .news hk (by simp)
      simpa only [absorb, hk, hg] using hempty
    | some info =>
      have hnews : l.Reports m { l with infos := absorb l.infos m }
          ({ l with infos := absorb l.infos m } : Lobby).broadcastInfos :=
        .news hk fun d => kind_broadcastInfos _
      simpa only [absorb, hk, hg] using hnews
  · rename_i hk
    obtain ⟨id, hid⟩ := Option.isSome_iff_exists.1 hm
    obtain ⟨stranded, hdeletes, hds⟩ := l.deletes_deleted id
    rw [hid, hds]
    exact .deleted hk hid hdeletes
  · rename_i hk hk'
    obtain ⟨targets, hds, hroutes⟩ := routes_route (l := l) hm
    rw [hds]
    exact .routed hk' hk hroutes

def leaveReply (l : Lobby) (socket : SocketId) (m : Message) : Message :=
  { m.reply .leaveGame with
    gameId := l.gameOf socket
    info := some (match l.gameOf socket with
      | some id => s!"left game {id}"
      | none => "not in a game") }

/-- All that can come of a request. An answer tells a client nothing of where it is, but for the
reply to a request to leave. -/
inductive Receives (l : Lobby) (now : Nat) (m : Message) : Lobby → List Duty → Prop where
  | dropped (unsent : m.socket = none) : Receives l now m l []
  | created {socket : SocketId} {c} (sent : m.socket = some socket) (kind : m.kind = .createGame)
    (game : l.games.create now m = .ok c) :
    Receives l now m { l with games := c.registry }
      [.pass c.session c.join socket (refusal m (.gameClosed c.id))]
  | left {socket : SocketId} (sent : m.socket = some socket) (kind : m.kind = .leaveGame) :
    Receives l now m (l.setGame socket none) [.tell socket (l.leaveReply socket m)]
  | passed {socket : SocketId} {n} (sent : m.socket = some socket) (kind : m.kind ≠ .leaveGame)
    (found : l.games.find m = .ok n) :
    Receives l now m l [.pass n m socket (refusal m (.gameClosed (m.gameId.getD 0)))]
  | answered {socket : SocketId} {answer} (sent : m.socket = some socket) (kind : m.kind ≠ .leaveGame)
    (joins : answer.kind ≠ .joinGame) (leaves : answer.kind ≠ .leaveGame)
    (error : m.kind ≠ .createGame → m.kind ≠ .gameInfos → answer.kind = .socketError) :
    Receives l now m l [.tell socket answer]

theorem enroll_eq_ok {name : String} {ds : List Duty}
    (h : l.enroll name = .ok (socket, l', ds)) :
    l' = { l with
      lastSocket := l.lastSocket + 1, guests := l.guests.insert (l.lastSocket + 1) { name } } ∧
    ds = [.tell (l.lastSocket + 1) l.infosMessage] ∧ socket = l.lastSocket + 1 := by
  rw [enroll] at h
  split at h
  · cases h
  · obtain ⟨hid, h⟩ := Prod.mk.inj (Except.ok.inj h)
    obtain ⟨rfl, rfl⟩ := Prod.mk.inj h
    exact ⟨rfl, rfl, hid.symm⟩

theorem gameOf_enroll {name : String} {ds : List Duty} (h : l.enroll name = .ok (socket, l', ds)) :
    l'.gameOf k = if k = l.lastSocket + 1 then none else l.gameOf k := by
  rw [(enroll_eq_ok h).1, gameOf, Table.get?_insert]
  split <;> rfl

theorem kind_refusal (m : Message) (e : RegistryError) :
    (refusal m e).kind ≠ .joinGame ∧ (refusal m e).kind ≠ .leaveGame := by
  change e.kind ≠ _ ∧ e.kind ≠ _
  rw [RegistryError.kind]
  split <;> exact ⟨nofun, nofun⟩

theorem kind_of_find {r : Registry} {e : RegistryError} (h : r.find m = .error e) :
    e.kind = .socketError := by
  rw [Registry.find] at h
  split at h
  · cases h
    rfl
  · split at h
    · cases h
      rfl
    · cases h

theorem receives_forward (now : Nat) (sent : m.socket = some socket) (kind : m.kind ≠ .leaveGame) :
    l.Receives now m l (l.forward socket m) := by
  rw [forward]
  split
  · rename_i e he
    exact .answered sent kind (kind_refusal m e).1 (kind_refusal m e).2 fun _ _ => kind_of_find he
  · rename_i n hn
    exact .passed sent kind hn

theorem receives_receive (l : Lobby) (now : Nat) (m : Message) :
    l.Receives now m (l.receive now m).1 (l.receive now m).2 := by
  cases hs : m.socket with
  | none =>
    simp only [receive, hs]
    exact .dropped hs
  | some socket =>
    simp only [receive, hs]
    cases hk : m.kind with
    | createGame =>
      dsimp only
      rw [create]
      split
      · rename_i e he
        exact .answered hs (by simp [hk]) (kind_refusal m e).1 (kind_refusal m e).2
          fun hne => (hne hk).elim
      · rename_i c hc
        exact .created hs hk hc
    | leaveGame => exact .left hs hk
    | joinGame | deleteGame | changeGameStatus | snagGameTile | swapGameTile | moveGameTiles
    | gameChat | refreshGameBoard => exact receives_forward now hs (by simp [hk])
    | gameInfos => exact .answered hs (by simp [hk]) nofun nofun fun _ hne => (hne hk).elim
    | _ => exact .answered hs (by simp [hk]) nofun nofun fun _ _ => rfl

end Lobby

end TileRace
