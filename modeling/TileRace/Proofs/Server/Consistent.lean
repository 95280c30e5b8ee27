import TileRace.Proofs.Server.Handlers
import TileRace.Proofs.Server.Run

namespace TileRace

/-- How a game stands: it is at work, or it has ended and has yet to be deleted. Its last message,
which says so, is the last that is under way. -/
inductive Registry.Stands (r : Registry) (n : Nat) (now : Summary) : Prop where
  | working {g} (game : r.game? n = some g) (summary : g.summary = now)
    (lasting : ∀ m ∈ r.underway n, m.kind ≠ .gameDeleted)
  | ended {rest last} (game : r.game? n = none) (underway : r.underway n = rest ++ [last])
    (kind : last.kind = .gameDeleted) (summary : last.game = some now)
    (lasting : ∀ m ∈ rest, m.kind ≠ .gameDeleted)

namespace Lobby

/-- The connections, the games and the list of games fit together, with what is under way. -/
structure Consistent (l : Lobby) : Prop where
  zero : l.games.rooms.get? 0 = none
  started {id n} : l.games.rooms.get? id = some n → n < l.games.started
  lodged {n g} : l.games.game? n = some g → l.games.rooms.get? g.id = some n
  underway {n m} : m ∈ l.games.underway n → ∃ id, m.gameId = some id ∧
    l.games.rooms.get? id = some n ∧
    (m.kind = .gameInfoChanged → ∃ info, m.game = some info ∧ info.id = id)
  rooms {id n} : l.games.rooms.get? id = some n → ∃ now, l.games.Stands n now ∧ now.id = id ∧
    (now.players ≠ [] → ((l.games.underway n).foldl absorb l.infos).get? id = some now)
  infos {id} : l.infos.contains id → l.games.contains id
  guests {socket id} : l.gameOf socket = some id → l.games.contains id

end Lobby

namespace Registry

variable {r r' : Registry} {m : Message} {n : Nat} {now now' : Summary}

theorem Stands.congr (hg : r'.game? n = r.game? n) (hu : r'.underway n = r.underway n)
    (h : r.Stands n now) : r'.Stands n now := by
  cases h with
  | working game summary lasting => exact .working (hg.trans game) summary (hu ▸ lasting)
  | ended game underway kind summary lasting =>
    exact .ended (hg.trans game) (hu.trans underway) kind summary lasting

theorem Stands.unique (h : r.Stands n now) (h' : r.Stands n now') : now = now' := by
  cases h with
  | working game summary =>
    cases h' with
    | working game' summary' =>
      rw [← summary, ← summary', Option.some.inj (game.symm.trans game')]
    | ended game' => cases game.symm.trans game'
  | ended game underway kind summary =>
    cases h' with
    | working game' => cases game.symm.trans game'
    | ended game' underway' kind' summary' =>
      have hlast := (List.append_inj' (underway.symm.trans underway') rfl).2
      rw [List.singleton_inj.1 hlast, summary'] at summary
      exact (Option.some.inj summary).symm

theorem Stands.taken (h : r.Stands n now) (ht : r.Takes n m r') (hk : m.kind ≠ .gameDeleted) :
    r'.Stands n now := by
  cases h with
  | working game summary lasting =>
    exact .working ((ht.game? n).trans game) summary fun o ho => lasting o (ht.mem ho)
  | @ended rest last game underway kind summary lasting =>
    rw [ht.head] at underway
    cases rest with
    -- what is taken up would be the notice itself
    | nil => exact (hk ((List.cons.inj underway).1 ▸ kind)).elim
    | cons o rest =>
      exact .ended ((ht.game? n).trans game) (List.cons.inj underway).2 kind summary
        fun o ho => lasting o (List.mem_cons_of_mem _ ho)

theorem Stands.last (h : r.Stands n now) (ht : r.Takes n m r') (hk : m.kind = .gameDeleted) :
    r'.game? n = none ∧ r'.underway n = [] := by
  cases h with
  | working game summary lasting => exact (lasting m (ht.head ▸ List.mem_cons_self) hk).elim
  | @ended rest last game underway kind summary lasting =>
    refine ⟨(ht.game? n).trans game, ?_⟩
    rw [ht.head] at underway
    cases rest with
    | nil => exact (List.cons.inj underway).2
    | cons o rest =>
      exact (lasting m ((List.cons.inj underway).1 ▸ List.mem_cons_self) hk).elim

/-- A session that acts is at work, and announces what becomes of its game. -/
theorem Stands.played {s : Session} {time : Nat} {a : Session.Act} {result : Session.Result}
    (h : r.Stands n now) (ha : s.act time a = some result) (hp : r.Plays n s result r') :
    ∃ out g, s.game.Tells out g ∧ now = s.game.summary ∧ r'.Stands n g.summary ∧
      Game.announced (r'.underway n) = Game.announced (r.underway n) ++ Game.announced out := by
  have hgame : r.game? n = some s.game := congrArg (Option.map _) hp.session
  have hunder : r'.underway n = r.underway n ++ result.out := by
    rw [hp.underway, if_pos rfl]
  cases h with
  | ended game => cases game.symm.trans hgame
  | working game summary lasting =>
    obtain rfl := Option.some.inj (game.symm.trans hgame)
    obtain ⟨out, g, htells, hend⟩ := Session.act_tells ha
    have hlasting : ∀ m ∈ r.underway n ++ out, m.kind ≠ .gameDeleted := fun m hm =>
      (List.mem_append.1 hm).elim (lasting m) (htells.lasting m)
    refine ⟨out, g, htells, summary.symm, ?_⟩
    obtain ⟨s', hs', rfl, hout⟩ | ⟨hnone, hout⟩ := hend <;> rw [hout] at hunder
    · refine ⟨.working ?_ rfl (hunder ▸ hlasting), by rw [hunder, Game.announced_append]⟩
      rw [hp.game?, if_pos rfl, hs']
      rfl
    · rw [← List.append_assoc] at hunder
      refine ⟨.ended ?_ hunder rfl rfl hlasting, ?_⟩
      · rw [hp.game?, if_pos rfl, hnone]
        rfl
      · rw [hunder, Game.announced_append, Game.announced_append]
        exact List.append_nil _

end Registry

namespace Lobby

variable {l l' : Lobby} {m : Message} {ms : List Message} {games : Registry} {id : GameId} {n : Nat}
  {infos infos' : Table GameId Summary}

theorem absorb_of_ne (h : m.kind ≠ .gameInfoChanged) : absorb infos m = infos := by
  rw [absorb]
  split
  · exact (h ‹_›).elim
  · rfl

theorem foldl_absorb_announced (ms : List Message) (infos : Table GameId Summary) :
    ms.foldl absorb infos = (Game.announced ms).foldl absorb infos := by
  induction ms generalizing infos with
  | nil => rfl
  | cons m ms ih =>
    rw [List.foldl_cons, ih, Game.announced, Game.announced]
    by_cases hk : m.kind = .gameInfoChanged
    · rw [List.filter_cons_of_pos (by simpa using hk)]
      rfl
    · rw [absorb_of_ne hk, List.filter_cons_of_neg (by simpa using hk)]

theorem get?_absorb_congr (h : infos.get? id = infos'.get? id) :
    (absorb infos m).get? id = (absorb infos' m).get? id := by
  rw [absorb, absorb]
  split
  · rw [Table.get?_insert, Table.get?_insert, h]
  · exact h

theorem get?_foldl_absorb_congr (h : infos.get? id = infos'.get? id) :
    (ms.foldl absorb infos).get? id = (ms.foldl absorb infos').get? id := by
  induction ms generalizing infos infos' with
  | nil => exact h
  | cons m ms ih => exact ih (get?_absorb_congr h)

theorem get?_absorb_of_ne
    (h : ∀ info, m.kind = .gameInfoChanged → m.game = some info → info.id ≠ id) :
    (absorb infos m).get? id = infos.get? id := by
  rw [absorb]
  split
  · rename_i info hk hg
    rw [Table.get?_insert, if_neg (h info hk hg).symm]
  · rfl

theorem Consistent.unique {id' : GameId} (h : l.Consistent) (hid : l.games.rooms.get? id = some n)
    (hid' : l.games.rooms.get? id' = some n) : id = id' := by
  obtain ⟨now, hstands, rfl, -⟩ := h.rooms hid
  obtain ⟨now', hstands', rfl, -⟩ := h.rooms hid'
  rw [hstands.unique hstands']

theorem contains_of_room (hid : l.games.rooms.get? id = some n) : l.games.contains id := by
  rw [Registry.contains, Table.contains, hid]
  rfl

theorem Consistent.alike (h : l.Consistent) (hr : l.games.Alike games) :
    Consistent { l with games } where
  zero := by rw [hr.rooms]; exact h.zero
  started hn := by
    rw [hr.rooms] at hn
    exact hr.started ▸ h.started hn
  lodged hg := by
    rw [hr.rooms]
    exact h.lodged ((hr.game? _).symm.trans hg)
  underway hm := by
    rw [hr.rooms]
    exact h.underway ((hr.underway _) ▸ hm)
  rooms hn := by
    rw [hr.rooms] at hn
    obtain ⟨now, hstands, hid, hinfo⟩ := h.rooms hn
    exact ⟨now, hstands.congr (hr.game? _) (hr.underway _), hid, by rwa [hr.underway]⟩
  infos hi := by
    rw [Registry.contains, hr.rooms]
    exact h.infos hi
  guests hs := by
    rw [Registry.contains, hr.rooms]
    exact h.guests hs

theorem Consistent.seat (h : l.Consistent) (hgames : l'.games = l.games)
    (hinfos : l'.infos = l.infos)
    (hs : ∀ socket id, l'.gameOf socket = some id → l.games.contains id) : l'.Consistent where
  zero := by rw [hgames]; exact h.zero
  started := by rw [hgames]; exact h.started
  lodged := by rw [hgames]; exact h.lodged
  underway := by rw [hgames]; exact h.underway
  rooms := by rw [hgames, hinfos]; exact h.rooms
  infos := by rw [hgames, hinfos]; exact h.infos
  guests := by rw [hgames]; exact hs _ _

theorem Consistent.underway_started (h : l.Consistent) :
    l.games.underway l.games.started = [] := by
  refine List.eq_nil_iff_forall_not_mem.2 fun m hm => ?_
  obtain ⟨id, -, hid, -⟩ := h.underway hm
  exact Nat.lt_irrefl _ (h.started hid)

theorem Consistent.created {c : Registry.Created} {s : Session} (h : l.Consistent)
    (hs : l.games.Opens m c s) (hleft : l.games.exhausted = false) :
    Consistent { l with games := c.registry } := by
  obtain ⟨hne, hfree⟩ := Registry.nextId_free h.zero hs.notFull hleft
  have hcontains {id : GameId} (hid : l.games.contains id) : c.registry.contains id := by
    rw [Registry.contains, Table.contains, hs.rooms]
    split
    · rfl
    · exact hid
  have hother {id : GameId} {n : Nat} (hid : l.games.rooms.get? id = some n) :
      c.registry.rooms.get? id = some n := by
    rw [hs.rooms, if_neg, hid]
    rintro rfl
    rw [hfree] at hid
    cases hid
  refine ⟨?_, fun {id n} hid => ?_, fun {n g} hg => ?_, fun {n m} hm => ?_, fun {id n} hid => ?_,
    fun hi => hcontains (h.infos hi), fun hk => hcontains (h.guests hk)⟩
  · rw [hs.rooms, if_neg hne.symm]
    exact h.zero
  · have hlt : l.games.started < c.registry.started := by
      rw [hs.registry]
      exact Nat.lt_succ_self _
    rw [hs.rooms] at hid
    split at hid
    · exact Option.some.inj hid ▸ hlt
    · exact Nat.lt_trans (h.started hid) hlt
  · rw [hs.game?] at hg
    split at hg
    · rename_i hn
      rw [← Option.some.inj hg, hs.id, hs.rooms, if_pos rfl, hn]
    · exact hother (h.lodged hg)
  · rw [hs.underway] at hm
    obtain ⟨id, hid, hroom, hnews⟩ := h.underway hm
    exact ⟨id, hid, hother hroom, hnews⟩
  · rw [hs.rooms] at hid
    split at hid
    · rename_i he
      obtain rfl := Option.some.inj hid
      -- the new game: nobody has joined it, so there need not be news of it
      have hnone : c.registry.underway l.games.started = [] :=
        (hs.underway _).trans h.underway_started
      refine ⟨s.game.summary, .working (by rw [hs.game?, if_pos rfl]) rfl (by simp [hnone]), ?_, ?_⟩
      · rw [he, ← hs.id]
        rfl
      · exact fun hp => (hp hs.players).elim
    · obtain ⟨now, hstands, hnow, hinfo⟩ := h.rooms hid
      refine ⟨now, hstands.congr ?_ (hs.underway n), hnow, by rwa [hs.underway]⟩
      rw [hs.game?, if_neg (Nat.ne_of_lt (h.started hid))]

theorem get?_foldl_absorb_tells {g g' : Game} (h : g.Tells ms g')
    (hinfo : g.summary.players ≠ [] → infos.get? g.id = some g.summary)
    (hp : g'.summary.players ≠ []) : (ms.foldl absorb infos).get? g.id = some g'.summary := by
  rw [foldl_absorb_announced]
  obtain ⟨hnone, hsame⟩ | hsome := h.news
  · rw [hnone, hsame]
    exact hinfo (hsame ▸ hp)
  · rw [hsome, ← h.id]
    exact (Table.get?_insert _ _ _ _).trans (if_pos rfl)

theorem Consistent.played {s : Session} {now : Nat} {a : Session.Act} {result : Session.Result}
    (h : l.Consistent) (ha : s.act now a = some result)
    (hp : l.games.Plays n s result games) : Consistent { l with games } := by
  have hroom : l.games.rooms.get? s.game.id = some n :=
    h.lodged (congrArg (Option.map _) hp.session)
  refine ⟨hp.rooms ▸ h.zero, fun {id k} hk => ?_, fun {k g'} hg => ?_, fun {k m} hm => ?_,
    fun {id k} hk => ?_, fun hi => ?_, fun hs => ?_⟩
  · rw [hp.started]
    exact h.started (hp.rooms ▸ hk)
  · rw [hp.rooms]
    rw [hp.game?] at hg
    split at hg
    · rename_i hk
      obtain ⟨s', hs', rfl⟩ := Option.map_eq_some_iff.1 hg
      rw [Session.act_id ha hs', hk, hroom]
    · exact h.lodged hg
  · rw [hp.rooms]
    rw [hp.underway] at hm
    obtain hm | hm := List.mem_append.1 hm
    · exact h.underway hm
    · split at hm
      · rename_i hk
        obtain ⟨hid, hnews⟩ := Session.act_named ha hm
        exact ⟨_, hid, hk ▸ hroom, hnews⟩
      · cases hm
  · rw [hp.rooms] at hk
    by_cases hkn : k = n
    · subst hkn
      -- a session has only one room, so this is the game that has acted
      obtain rfl := h.unique hk hroom
      obtain ⟨now, hstands, -, hinfo⟩ := h.rooms hroom
      obtain ⟨out, g, htells, rfl, hstands', hnews⟩ := hstands.played ha hp
      refine ⟨g.summary, hstands', htells.id, fun hplayers => ?_⟩
      rw [foldl_absorb_announced, hnews, List.foldl_append, ← foldl_absorb_announced out,
        ← foldl_absorb_announced (l.games.underway k)]
      exact get?_foldl_absorb_tells htells hinfo hplayers
    · obtain ⟨now, hstands, hnow, hinfo⟩ := h.rooms hk
      have hu : games.underway k = l.games.underway k := by
        rw [hp.underway, if_neg hkn, List.append_nil]
      refine ⟨now, hstands.congr ?_ hu, hnow, by rwa [hu]⟩
      rw [hp.game?, if_neg hkn]
  · rw [Registry.contains, hp.rooms]
    exact h.infos hi
  · rw [Registry.contains, hp.rooms]
    exact h.guests hs

theorem Consistent.taken (h : l.Consistent) (ht : l.games.Takes n m games)
    (hk : m.kind ≠ .gameDeleted) :
    Consistent { l with games, infos := absorb l.infos m } := by
  obtain ⟨id₀, -, hroom, hnews⟩ := h.underway (ht.head ▸ List.mem_cons_self)
  refine ⟨ht.rooms ▸ h.zero, fun {id k} hk => ?_, fun {k g} hg => ?_, fun {k o} ho => ?_,
    fun {id k} hid => ?_, fun {id} hi => ?_, fun hs => ?_⟩
  · rw [ht.started]
    exact h.started (ht.rooms ▸ hk)
  · rw [ht.rooms]
    exact h.lodged ((ht.game? k).symm.trans hg)
  · rw [ht.rooms]
    exact h.underway (ht.mem ho)
  · rw [ht.rooms] at hid
    obtain ⟨now, hstands, hnow, hinfo⟩ := h.rooms hid
    by_cases hkn : k = n
    · subst hkn
      refine ⟨now, hstands.taken ht hk, hnow, fun hp => ?_⟩
      have hinfo := hinfo hp
      rw [ht.head] at hinfo
      exact hinfo
    · have hu := ht.others k hkn
      refine ⟨now, hstands.congr (ht.game? k) hu, hnow, fun hp => ?_⟩
      rw [hu, ← hinfo hp]
      refine get?_foldl_absorb_congr (get?_absorb_of_ne fun info hkind hg he => hkn ?_)
      obtain ⟨info', hg', hid'⟩ := hnews hkind
      rw [Option.some.inj (hg.symm.trans hg'), hid'] at he
      rw [he, hid] at hroom
      exact Option.some.inj hroom
  · rw [Registry.contains, ht.rooms]
    by_cases hid : id = id₀
    · rw [hid]
      exact contains_of_room hroom
    · have hsame : (absorb l.infos m).get? id = l.infos.get? id := by
        refine get?_absorb_of_ne fun info hkind hg he => hid ?_
        obtain ⟨info', hg', hid'⟩ := hnews hkind
        rw [← he, Option.some.inj (hg.symm.trans hg'), hid']
      exact h.infos (by rwa [Table.contains, hsame] at hi)
  · rw [Registry.contains, ht.rooms]
    exact h.guests hs

theorem Consistent.gone (h : l.Consistent) (ht : l.games.Takes n m games)
    (hk : m.kind = .gameDeleted) : games.Gone n := by
  obtain ⟨id, -, hroom, -⟩ := h.underway (ht.head ▸ List.mem_cons_self : m ∈ _)
  obtain ⟨now, hstands, -⟩ := h.rooms hroom
  obtain ⟨hgame, hunder⟩ := hstands.last ht hk
  exact ⟨ht.started ▸ h.started hroom, hgame, hunder⟩

theorem Consistent.deleted {stranded : List SocketId} (h : l.Consistent)
    (ht : l.games.Takes n m games) (hk : m.kind = .gameDeleted) (hid : m.gameId = some id)
    (hd : Deletes { l with games } id stranded l') : l'.Consistent := by
  have hgone := h.gone ht hk
  have hr : games.Removes id l'.games := by
    rw [hd.frame]
    exact games.removes_remove id
  have hinfos : l'.infos = l.infos.erase id := by rw [hd.frame]
  have hroom : l.games.rooms.get? id = some n := by
    obtain ⟨id', hid', hroom, -⟩ := h.underway (ht.head ▸ List.mem_cons_self : m ∈ _)
    rwa [Option.some.inj (hid.symm.trans hid')]
  have hrooms (id' : GameId) : l'.games.rooms.get? id' =
      if id' = id then none else l.games.rooms.get? id' := by
    rw [hr.rooms, Table.get?_erase, ht.rooms]
  have hother {id' : GameId} {k : Nat} (hk : k ≠ n) (hid' : l.games.rooms.get? id' = some k) :
      l'.games.rooms.get? id' = some k := by
    rw [hrooms, if_neg, hid']
    rintro rfl
    exact hk (Option.some.inj (hid'.symm.trans hroom))
  have hcontains {id' : GameId} (hne : id' ≠ id) (hc : l.games.contains id') :
      l'.games.contains id' := by
    rw [Registry.contains, Table.contains, hrooms, if_neg hne]
    exact hc
  refine ⟨?_, fun {id' k} hk => ?_, fun {k g} hg => ?_, fun {k o} ho => ?_, fun {id' k} hid' => ?_,
    fun {id'} hi => ?_, fun {k id'} hs => ?_⟩
  · rw [hrooms, h.zero, ite_self]
  · rw [hrooms] at hk
    split at hk
    · cases hk
    · rw [hr.started, ht.started]
      exact h.started hk
  · rw [hr.game?] at hg
    refine hother (fun he => ?_) (h.lodged ((ht.game? k).symm.trans hg))
    rw [he, hgone.game?] at hg
    cases hg
  · rw [hr.underway] at ho
    obtain ⟨id', hid', hroom', hnews⟩ := h.underway (ht.mem ho)
    refine ⟨id', hid', hother (fun he => ?_) hroom', hnews⟩
    rw [he, hgone.underway] at ho
    cases ho
  · rw [hrooms] at hid'
    split at hid'
    · cases hid'
    · rename_i hne
      have hkn : k ≠ n := fun he => hne (h.unique (he ▸ hid') hroom)
      have hu : l'.games.underway k = l.games.underway k :=
        (hr.underway k).trans (ht.others k hkn)
      obtain ⟨now, hstands, hnow, hinfo⟩ := h.rooms hid'
      refine ⟨now, hstands.congr ((hr.game? k).trans (ht.game? k)) hu, hnow, fun hp => ?_⟩
      rw [hu, hinfos, ← hinfo hp]
      exact get?_foldl_absorb_congr ((Table.get?_erase _ _ _).trans (if_neg hne))
  · rw [hinfos, Table.contains, Table.get?_erase] at hi
    split at hi
    · cases hi
    · exact hcontains ‹_› (h.infos hi)
  · rw [hd.gameOf] at hs
    split at hs
    · cases hs
    · rename_i hne
      exact hcontains (fun he => hne (he ▸ hs)) (h.guests hs)

theorem Consistent.routed {targets : List SocketId} (h : l.Consistent)
    (ht : l.games.Takes n m games) (hk : m.kind ≠ .gameDeleted) (hk' : m.kind ≠ .gameInfoChanged)
    (hr : Routes { l with games } m targets l') : l'.Consistent := by
  have htaken := h.taken ht hk
  rw [absorb_of_ne hk'] at htaken
  obtain ⟨id, hid, hroom, -⟩ := h.underway (ht.head ▸ List.mem_cons_self : m ∈ _)
  refine htaken.seat (by rw [hr.moved.frame]) (by rw [hr.moved.frame]) fun k id' hs => ?_
  rw [hr.gameOf] at hs
  split at hs
  · by_cases hj : m.kind = .joinGame
    · rw [track_joinGame hj (by rw [hid]; rfl), hid] at hs
      rw [Registry.contains, Table.contains, ht.rooms, ← Option.some.inj hs, hroom]
      rfl
    · have hs : Lobby.gameOf { l with games } k = some id' := by
        by_cases hl : m.kind = .leaveGame
        · rw [track_leaveGame hl (by rw [hid]; rfl)] at hs
          split at hs
          · cases hs
          · exact hs
        · rwa [track_of_ne hj hl] at hs
      exact htaken.guests hs
  · exact htaken.guests hs

theorem Consistent.received {now : Nat} {ds : List Duty} (h : l.Consistent)
    (hleft : m.kind = .createGame → l.games.exhausted = false) (hr : l.Receives now m l' ds) :
    l'.Consistent := by
  cases hr with
  | dropped | passed | answered => exact h
  | created sent kind game =>
    obtain ⟨s, hs⟩ := Registry.create_eq_ok game
    exact h.created hs (hleft kind)
  | left sent kind =>
    refine h.seat rfl rfl fun k id hs => ?_
    rw [gameOf_setGame_none] at hs
    split at hs
    · cases hs
    · exact h.guests hs

theorem Consistent.reported {ds : List Duty} (h : l.Consistent) (ht : l.games.Takes n m games)
    (hr : Reports { l with games } m l' ds) : l'.Consistent := by
  cases hr with
  | news kind => exact h.taken ht (by simp [kind])
  | deleted kind about deletes => exact h.deleted ht kind about deletes
  | routed lasting quiet routes => exact h.routed ht lasting quiet routes

theorem Consistent.gameId_isSome (h : l.Consistent) (hm : m ∈ l.games.underway n) :
    m.gameId.isSome := by
  obtain ⟨id, hid, -⟩ := h.underway hm
  rw [hid]
  rfl

/-- What the lobby takes up is the oldest report of a session, and it does all that is due. -/
theorem Consistent.reports (h : l.Consistent) (hm : l.games.takeReport n = some (m, games)) :
    l.games.Takes n m games ∧ Reports { l with games } m ({ l with games }.report m).1
      ({ l with games }.report m).2 := by
  have ht := Registry.takeReport_eq_some hm
  exact ⟨ht, reports_report (h.gameId_isSome (ht.head ▸ List.mem_cons_self))⟩

theorem Consistent.step {ds ds' : List Duty} {d : Option Deed} (h : l.Consistent)
    (hstep : l.Step ds d l' ds') : l'.Consistent := by
  cases hstep with
  | rest | tell | answer => exact h
  | enroll free hok =>
    have hgame (k : SocketId) := gameOf_enroll (k := k) hok
    obtain ⟨rfl, -⟩ := enroll_eq_ok hok
    refine h.seat rfl rfl fun k id hs => ?_
    rw [hgame] at hs
    split at hs
    · cases hs
    · exact h.guests hs
  | hear now free hleft => exact h.received hleft (receives_receive l now _)
  | forget socket free =>
    refine h.seat rfl rfl fun k id hs => ?_
    rw [gameOf_forget] at hs
    split at hs
    · cases hs
    · exact h.guests hs
  | route free hm =>
    obtain ⟨ht, hr⟩ := h.reports hm
    exact h.reported ht hr
  | pass socket answer ds hok => exact h.alike (Registry.deliver_eq_accepted hok).1
  | play ds hok =>
    obtain ⟨s, result, ha, hp⟩ := Registry.act_eq_some hok
    exact h.played ha hp
  | cancel => exact h.alike l.games.alike_cancel

end Lobby

end TileRace
