import TileRace.Proofs.Board.Batch
import TileRace.Proofs.Game.Accepted
import TileRace.Proofs.Pool

namespace TileRace.Game

def tiles (g : Game) : List Tile := g.pool ++ g.seats.values.flatMap (·.board.tiles)

def tilesApart (g : Game) (name : String) : List Tile :=
  (g.seats.erase name).values.flatMap (·.board.tiles)

/-- No tile has been lost, doubled or changed, and no board is out of order. -/
structure Sound (g : Game) : Prop where
  boards : ∀ {name seat}, g.seats.get? name = some seat → seat.board.Coherent
  tiles_perm : g.tiles.Perm (Tile.ofLetters g.settings.letters)
  numbered : (Tile.ofLetters g.settings.letters).length < UInt32.size - 1

variable {g : Game} {m : Message} {name : String} {seat : Seat} {t : Turn}

theorem tiles_perm_seat (hs : g.seats.get? name = some seat) :
    g.tiles.Perm (g.pool ++ (seat.board.tiles ++ g.tilesApart name)) :=
  ((Table.values_perm_cons hs).flatMap_right _).append_left _

theorem Sound.ids_nodup (hg : g.Sound) : (g.tiles.map (·.id)).Nodup := by
  have hlen := hg.numbered
  exact (hg.tiles_perm.map _).nodup_iff.2 (Tile.ofLetters_ids_nodup (by omega))

theorem Sound.pool_ids_nodup (hg : g.Sound) : (g.pool.map (·.id)).Nodup :=
  hg.ids_nodup.sublist ((List.sublist_append_left _ _).map _)

theorem Sound.free (hg : g.Sound) (hs : g.seats.get? name = some seat) {tile : Tile}
    (ht : tile ∈ g.pool) : seat.board.owned? tile.id = none := by
  have hn := ((tiles_perm_seat hs).map (·.id)).nodup_iff.1 hg.ids_nodup
  rw [List.map_append, List.map_append] at hn
  refine (hg.boards hs).not_mem_ids fun hm => ?_
  exact (List.nodup_append.1 hn).2.2 _ (List.mem_map.2 ⟨tile, ht, rfl⟩) _
    (List.mem_append_left _ hm) rfl

theorem Sound.modify (hg : g.Sound) (hs : g.seats.get? name = some seat) {f : Seat → Seat}
    (hb : (f seat).board.Coherent) {g' : Game} (hseats : g'.seats = g.seats.modify name f)
    (hset : g'.settings = g.settings)
    (hp : (g'.pool ++ (f seat).board.tiles).Perm (g.pool ++ seat.board.tiles)) : g'.Sound where
  boards := by
    intro x s hx
    rw [hseats, Table.get?_modify] at hx
    split at hx
    · rename_i he
      rw [he, hs, Option.map_some] at hx
      exact Option.some.inj hx ▸ hb
    · exact hg.boards hx
  tiles_perm := by
    rw [hset]
    refine List.Perm.trans ?_ hg.tiles_perm
    refine List.Perm.trans ?_ (tiles_perm_seat hs).symm
    have hv := ((Table.values_modify_perm hs f).flatMap_right (·.board.tiles)).append_left g'.pool
    rw [List.flatMap_cons, ← List.append_assoc] at hv
    rw [tiles, hseats, ← List.append_assoc]
    exact hv.trans (hp.append_right _)
  numbered := hset ▸ hg.numbered

theorem Sound.setBoard (hg : g.Sound) (hs : g.seats.get? name = some seat) {b : Board}
    (hb : b.Coherent) {g' : Game} (hseats : g'.seats = (g.setBoard name b).seats)
    (hset : g'.settings = g.settings)
    (hp : (g'.pool ++ b.tiles).Perm (g.pool ++ seat.board.tiles)) : g'.Sound :=
  hg.modify hs (f := fun s => { s with board := b }) hb hseats hset hp

theorem get?_setBoard (g : Game) (name : String) (b : Board) (x : String) :
    (g.setBoard name b).seats.get? x =
      if x = name then (g.seats.get? x).map fun s => { s with board := b } else g.seats.get? x :=
  Table.get?_modify _ _ _ _

def board? (g : Game) (name : String) : Option Board := (g.seats.get? name).map (·.board)

theorem board?_of_seat (hs : g.seats.get? name = some seat) : g.board? name = some seat.board := by
  rw [board?, hs]
  rfl

theorem Asks.board? {k : Kind} (asks : g.Asks m k name seat) :
    g.board? name = some seat.board := board?_of_seat asks.seat

theorem Asks.mem_players {k : Kind} (asks : g.Asks m k name seat) : name ∈ g.players :=
  Table.mem_keys.2 ⟨seat, asks.seat⟩

theorem players_setBoard (g : Game) (name : String) (b : Board) :
    (g.setBoard name b).players = g.players := Table.keys_modify _ _ _

theorem board?_setBoard (hs : g.seats.get? name = some seat) (b : Board) (x : String) :
    (g.setBoard name b).board? x = if x = name then some b else g.board? x := by
  rw [board?, get?_setBoard]
  split
  · rename_i hx
    rw [hx, hs]
    rfl
  · rfl

theorem board?_joined (g : Game) (name : String) (b : Board) (socket : Option SocketId)
    (x : String) :
    (g.joined name b socket).game.board? x = if x = name then some b else g.board? x := by
  rw [board?, joined, Table.get?_insert]
  split <;> rfl

theorem give_of_foldlM {ts : List Tile} {b c : Board} (h : ts.foldlM Board.add b = .ok c) :
    g.give name b ts = .ok (g.setBoard name c) := by
  induction ts generalizing b with
  | nil =>
    obtain rfl := pure_eq_ok.1 h
    rfl
  | cons tile ts ih =>
    rw [List.foldlM_cons, bind_eq_ok] at h
    obtain ⟨b', hb', h⟩ := h
    rw [give, hb']
    exact ih h

theorem Sound.deal_one (hg : g.Sound) (hs : g.seats.get? name = some seat) {tile : Tile}
    {pool : List Tile} (hp : g.pool = tile :: pool) :
    Game.give { g with pool := pool } name seat.board [tile] =
      .ok (Game.setBoard { g with pool := pool } name (seat.board.hold tile)) ∧
    (Game.setBoard { g with pool := pool } name (seat.board.hold tile)).Sound := by
  have hfree : seat.board.owned? tile.id = none := hg.free hs (hp ▸ List.mem_cons_self)
  have hb := hg.boards hs
  refine ⟨give_of_foldlM ?_, hg.setBoard hs (hb.hold hfree) rfl rfl ?_⟩
  · rw [List.foldlM_cons, Board.add_eq_ok_iff.2 ⟨hfree, rfl⟩]
    rfl
  · rw [hp]
    exact ((hb.hold_perm hfree).append_left pool).trans List.perm_middle

def dealtTo (dealt : List (String × Tile)) (name : String) (seat : Seat) : Seat :=
  match dealt.lookup name with
  | none => seat
  | some tile => { seat with board := seat.board.hold tile }

/-- A deal hands the front of the pool out, a tile to each player in turn. -/
structure Dealt (g : Game) (names : List String) (g' : Game) (dealt : List (String × Tile)) :
    Prop where
  tiles : dealt = names.zip g.pool
  pool : g'.pool = g.pool.drop names.length
  players : g'.players = g.players
  seats : ∀ x, g'.seats.get? x = (g.seats.get? x).map (dealtTo dealt x)
  rest : g' = { g with pool := g'.pool, seats := g'.seats }

theorem Sound.deal (hg : g.Sound) {names : List String} (hnames : names.Nodup)
    (hseats : ∀ x ∈ names, ∃ s, g.seats.get? x = some s) :
    ∃ g' dealt, g.deal names = .ok (g', dealt) ∧ g'.Sound ∧ Dealt g names g' dealt := by
  induction names generalizing g with
  | nil =>
    refine ⟨g, [], rfl, hg, rfl, rfl, rfl, fun x => ?_, rfl⟩
    cases g.seats.get? x <;> rfl
  | cons n names ih =>
    cases hpool : g.pool with
    | nil =>
      refine ⟨g, [], by rw [Game.deal, hpool], hg, by simp [hpool], by simp [hpool], rfl,
        fun x => ?_, rfl⟩
      cases g.seats.get? x <;> rfl
    | cons tile pool =>
      obtain ⟨hn, hnames⟩ := List.nodup_cons.1 hnames
      obtain ⟨s, hs⟩ := hseats n List.mem_cons_self
      obtain ⟨hgive, hg₁⟩ := hg.deal_one hs hpool
      have hget := get?_setBoard { g with pool := pool } n (s.board.hold tile)
      have hseats₁ : ∀ x ∈ names, ∃ s',
          (Game.setBoard { g with pool := pool } n (s.board.hold tile)).seats.get? x = some s' := by
        intro x hx
        have hne : x ≠ n := fun he => hn (he ▸ hx)
        rw [hget, if_neg hne]
        exact hseats x (List.mem_cons_of_mem _ hx)
      obtain ⟨g', dealt, hd, hg', hD⟩ := ih hg₁ hnames hseats₁
      refine ⟨g', (n, tile) :: dealt, ?_, hg', ?_, ?_, ?_, fun x => ?_, ?_⟩
      · rw [Game.deal, hpool]
        simp only [hs, hgive, bind, Except.bind, hd]
        rfl
      · rw [hD.tiles, hpool]
        rfl
      · rw [hD.pool, hpool]
        rfl
      · exact hD.players.trans (Table.keys_modify _ _ _)
      · rw [hD.seats, hget]
        by_cases hx : x = n
        · have hl : dealt.lookup n = none := by
            rw [List.lookup_eq_none_iff, hD.tiles]
            rintro ⟨a, u⟩ hm
            have hne : n ≠ a := fun he => hn (he ▸ (List.of_mem_zip hm).1)
            simpa using hne
          subst hx
          simp [dealtTo, hl, hs]
        · have hb : (x == n) = false := by simpa using hx
          cases g.seats.get? x <;> simp [dealtTo, hx, List.lookup_cons, hb]
      · rw [hD.rest]
        rfl

theorem Sound.offer_ids_nodup (hg : g.Sound) (hs : g.seats.get? name = some seat) :
    ((g.pool ++ seat.board.tiles).map (·.id)).Nodup := by
  refine (((tiles_perm_seat hs).map (·.id)).nodup_iff.1 hg.ids_nodup).sublist ?_
  rw [← List.append_assoc]
  exact (List.sublist_append_left _ _).map _

theorem Sound.swap (hg : g.Sound) (hs : g.seats.get? name = some seat) {tile : Tile} {b : Board}
    (hr : seat.board.remove tile = .ok b) {pool : List Tile} (hp : pool.Perm (g.pool ++ [tile]))
    (n : Nat) : ∃ c, (pool.take n).foldlM Board.add b = .ok c ∧ c.Coherent ∧
      (pool.drop n ++ c.tiles).Perm (g.pool ++ seat.board.tiles) := by
  have hb := hg.boards hs
  have hbc : b.Coherent := by
    obtain ⟨-, rfl⟩ := hb.remove_eq_ok_iff.1 hr
    exact hb.take _
  have hall : (pool ++ b.tiles).Perm (g.pool ++ seat.board.tiles) := by
    refine (hp.append_right _).trans ?_
    rw [List.append_assoc]
    exact ((hb.remove_perm hr).symm).append_left _
  have hnodup := (hall.map (·.id)).nodup_iff.2 (hg.offer_ids_nodup hs)
  rw [List.map_append] at hnodup
  obtain ⟨hpool, -, hapart⟩ := List.nodup_append.1 hnodup
  obtain ⟨c, hc, hcc, hhand, hused, -⟩ := hbc.foldlM_add
    (hpool.sublist ((List.take_sublist n pool).map _)) (fun u hu => hbc.not_mem_ids fun hm =>
      hapart _ (List.mem_map.2 ⟨u, List.mem_of_mem_take hu, rfl⟩) _ hm rfl)
  refine ⟨c, hc, hcc, ?_⟩
  refine (((Board.tiles_perm_append hhand hused).append_left _).trans ?_).trans hall
  rw [← List.append_assoc]
  refine (List.perm_append_comm.append_right _).trans ?_
  rw [List.take_append_drop]

theorem Sound.of_give (hg : g.Sound) (hs : g.seats.get? name = some seat) {tile : Tile} {b : Board}
    (hr : seat.board.remove tile = .ok b) {pool : List Tile} (hp : pool.Perm (g.pool ++ [tile]))
    {n : Nat} {shuffler : Shuffler} {g' : Game}
    (give : Game.give { g with pool := pool.drop n, shuffler := shuffler } name b (pool.take n) =
      .ok g') :
    ∃ c, (pool.take n).foldlM Board.add b = .ok c ∧ c.Coherent ∧
      (pool.drop n ++ c.tiles).Perm (g.pool ++ seat.board.tiles) ∧
      g' = Game.setBoard { g with pool := pool.drop n, shuffler := shuffler } name c := by
  obtain ⟨c, hc, hcoh, hperm⟩ := hg.swap hs hr hp n
  rw [give_of_foldlM hc] at give
  exact ⟨c, hc, hcoh, hperm, (Except.ok.inj give).symm⟩

theorem Sound.newcomer (hg : g.Sound) (grid : Grid) (n : Nat) :
    ∃ b, Board.ofTiles grid (g.pool.take n) = .ok b ∧ b.Coherent ∧ b.hand = g.pool.take n ∧
      b.placed = [] ∧ b.grid = grid :=
  Board.Coherent.ofTiles grid (hg.pool_ids_nodup.sublist ((List.take_sublist n g.pool).map _))

theorem Sound.joined (hg : g.Sound) (hn : g.seats.get? name = none) (n : Nat) {b : Board}
    (hb : b.Coherent) (hhand : b.hand = g.pool.take n) (hplaced : b.placed = [])
    (socket : Option SocketId) :
    (Game.joined { g with pool := g.pool.drop n } name b socket).game.Sound where
  boards := by
    intro x s hx
    have hx := (Table.get?_insert _ _ _ _).symm.trans hx
    split at hx
    · exact Option.some.inj hx ▸ hb
    · exact hg.boards hx
  tiles_perm := by
    refine List.Perm.trans ?_ hg.tiles_perm
    have hv := (Table.values_insert_perm g.seats name ⟨b, g.settings.prize⟩).flatMap_right
      (·.board.tiles)
    rw [Table.erase_of_get?_eq_none hn, List.flatMap_cons] at hv
    refine (hv.append_left (g.pool.drop n)).trans ?_
    rw [← List.append_assoc, Board.tiles, hhand, hplaced, List.map_nil, List.append_nil]
    refine (List.perm_append_comm.append_right _).trans ?_
    rw [List.take_append_drop]
    exact .refl _
  numbered := hg.numbered

theorem mem_others {x : String} :
    x ∈ g.others name ↔ (∃ s, g.seats.get? x = some s) ∧ x ≠ name := by
  rw [others, players, List.mem_filter, Table.mem_keys, decide_eq_true_iff]

theorem Sound.snag (hg : g.Sound) (hs : g.seats.get? name = some seat) :
    ∃ g' dealt, Game.deal { g with shuffler := (g.shuffler.shuffle (g.others name)).2 }
        (name :: (g.shuffler.shuffle (g.others name)).1) = .ok (g', dealt) ∧ g'.Sound ∧
      Dealt { g with shuffler := (g.shuffler.shuffle (g.others name)).2 }
        (name :: (g.shuffler.shuffle (g.others name)).1) g' dealt := by
  have hperm := Shuffler.shuffle_perm g.shuffler (g.others name)
  have hg₁ : Sound { g with shuffler := (g.shuffler.shuffle (g.others name)).2 } := { hg with }
  refine hg₁.deal (List.nodup_cons.2 ⟨fun hm => ?_, ?_⟩) fun x hx => ?_
  · exact (mem_others.1 (hperm.mem_iff.1 hm)).2 rfl
  · exact hperm.nodup_iff.2 (g.seats.keys_nodup.filter _)
  · obtain rfl | hx := List.mem_cons.1 hx
    · exact ⟨seat, hs⟩
    · exact (mem_others.1 (hperm.mem_iff.1 hx)).1

theorem Sound.of_deal (hg : g.Sound) (hs : g.seats.get? name = some seat) {g' : Game}
    {dealt : List (String × Tile)}
    (deal : Game.deal { g with shuffler := (g.shuffler.shuffle (g.others name)).2 }
      (name :: (g.shuffler.shuffle (g.others name)).1) = .ok (g', dealt)) :
    g'.Sound ∧ Dealt { g with shuffler := (g.shuffler.shuffle (g.others name)).2 }
      (name :: (g.shuffler.shuffle (g.others name)).1) g' dealt := by
  obtain ⟨g₁, dealt₁, hd, hg₁, hD⟩ := hg.snag hs
  rw [hd] at deal
  cases deal
  exact ⟨hg₁, hD⟩

theorem Sound.accepted (hg : g.Sound) (h : g.Accepted m t) : t.game.Sound := by
  cases h with
  | returned | deleted | chatted | refreshed => exact hg
  | started | won => exact { hg with }
  | joined kind player absent status room enough hand =>
    obtain ⟨b, hb, hcoh, hhand, hplaced, -⟩ := hg.newcomer _ g.settings.handSize.toNat
    rw [hb] at hand
    cases hand
    exact hg.joined absent _ hcoh hhand hplaced m.socket
  | snagged asks now pool check deal => exact (hg.of_deal asks.seat deal).1
  | swapped asks now offer pool remove give =>
    obtain ⟨c, -, hcoh, hperm, rfl⟩ := hg.of_give asks.seat remove (Shuffler.shuffle_perm _ _) give
    exact hg.setBoard asks.seat hcoh rfl rfl hperm
  | moved asks now batch move =>
    have hb := hg.boards asks.seat
    exact hg.setBoard asks.seat (hb.move move) rfl rfl ((hb.move_perm move).append_left _)
  | resized asks wish valid =>
    have hb := hg.boards asks.seat
    exact hg.setBoard asks.seat (hb.resize _) rfl rfl ((hb.resize_perm _).append_left _)

end TileRace.Game
