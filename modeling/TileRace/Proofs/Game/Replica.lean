import TileRace.Proofs.Game.Conservation
import TileRace.Proofs.Game.Messages

namespace TileRace

def offered? (p : String) (m : Message) : Option Tile :=
  if m.player = some p ∧ m.kind = .swapGameTile then (m.tiles.getD []).head? else none

def wished? (p : String) (m : Message) : Option Grid :=
  if m.player = some p ∧ m.kind = .refreshGameBoard then m.grid else none

def moved? (p : String) (m : Message) (out : List Message) : Option (List Placement) :=
  if m.player = some p ∧ m.kind = .moveGameTiles ∧ messagesTo p out = [] then m.placements
  else none

/-- What a message makes of the board that its receiver knows, in the light of the own request. The
first board comes with the answer to a request to join. -/
def hear (p : String) (m : Message) : Option Board → Message → Except BoardError (Option Board)
  | none, o => match o.kind, o.grid, o.tiles with
    | .joinGame, some grid, some tiles => some <$> Board.ofTiles grid tiles
    | _, _, _ => .ok none
  | some b, o => match o.kind, o.tiles with
    | .snagGameTile, some tiles => some <$> tiles.foldlM Board.add b
    | .swapGameTile, some tiles => match offered? p m with
      | some t => do
        let b ← b.remove t
        some <$> tiles.foldlM Board.add b
      | none => .ok (some b)
    | .refreshGameBoard, _ => match wished? p m with
      | some grid => .ok (some (b.resize grid).1)
      | none => .ok (some b)
    | _, _ => .ok (some b)

/-- What a request to the game and all that the game sends make of the board that a player knows. -/
def observe (p : String) (m : Message) (out : List Message) (r : Option Board) :
    Except BoardError (Option Board) := do
  let r ← match r, moved? p m out with
    | some b, some ps => some <$> b.move ps
    | r, _ => .ok r
  (messagesTo p out).foldlM (hear p m) r

/-- The board that a player knows after some requests to a game. -/
def follow (p : String) (g : Game) (r : Option Board) :
    List Message → Except BoardError (Option Board)
  | [] => .ok r
  | m :: ms => do
    let r ← observe p m (g.handle m).out r
    follow p (g.handle m).game r ms

section Quiet

variable {p : String} {m o : Message} {out : List Message} {r : Option Board}

theorem moved?_of_kind (h : m.kind ≠ .moveGameTiles) : moved? p m out = none := by
  simp [moved?, h]

theorem moved?_of_player (h : m.player ≠ some p) : moved? p m out = none := by
  simp [moved?, h]

theorem wished?_of_grid (h : m.grid = none) : wished? p m = none := by
  simp [wished?, h]

theorem wished?_of_kind (hp : m.player = some p) (hk : m.kind = .refreshGameBoard) :
    wished? p m = m.grid :=
  if_pos ⟨hp, hk⟩

theorem observe_of_moved?_eq_none (h : moved? p m out = none) :
    observe p m out r = (messagesTo p out).foldlM (hear p m) r := by
  cases r with
  | none => rfl
  | some b =>
    simp only [observe, h]
    rfl

theorem hear_of_kind (h : o.kind ∉ [.joinGame, .snagGameTile, .swapGameTile, .refreshGameBoard]) :
    hear p m r o = .ok r := by
  simp only [List.mem_cons, List.not_mem_nil, or_false, not_or] at h
  obtain ⟨hjoin, hsnag, hswap, hrefresh⟩ := h
  cases r with
  | none =>
    rw [hear]
    split
    · rename_i hk _ _
      exact (hjoin hk).elim
    · rfl
  | some b =>
    rw [hear]
    split
    · rename_i hk _
      exact (hsnag hk).elim
    · rename_i hk _
      exact (hswap hk).elim
    · rename_i hk
      exact (hrefresh hk).elim
    · rfl

theorem hear_snag {b : Board} (h : o.kind = .snagGameTile) :
    hear p m (some b) o = some <$> (o.tiles.getD []).foldlM Board.add b := by
  rw [hear, h]
  cases o.tiles <;> rfl

theorem hear_swap {b : Board} {t : Tile} {ts : List Tile} (h : o.kind = .swapGameTile)
    (ho : o.tiles = some ts) (hm : offered? p m = some t) :
    hear p m (some b) o = b.remove t >>= fun b => some <$> ts.foldlM Board.add b := by
  rw [hear, h, ho, hm]

theorem hear_swap_of_others (h : o.kind = .swapGameTile) (ho : o.tiles = none) :
    hear p m r o = .ok r := by
  cases r <;> rw [hear, h, ho]

theorem hear_refresh {b : Board} (h : o.kind = .refreshGameBoard) : hear p m (some b) o =
    .ok (some (match wished? p m with | some grid => (b.resize grid).1 | none => b)) := by
  rw [hear, h]
  cases wished? p m <;> rfl

theorem foldlM_hear {os : List Message} (h : ∀ o ∈ os, hear p m r o = .ok r) :
    os.foldlM (hear p m) r = .ok r := by
  induction os with
  | nil => rfl
  | cons o os ih =>
    rw [List.foldlM_cons, h o List.mem_cons_self]
    exact ih fun o ho => h o (List.mem_cons_of_mem _ ho)

end Quiet

namespace Game

variable {g : Game} {m o : Message} {name p : String} {seat : Seat} {t : Turn} {r : Rejection}

theorem Rejected.observe (h : g.Rejected m r) :
    observe p m (refuse m r).out (g.board? p) = .ok ((refuse m r).game.board? p) := by
  have hmoved : moved? p m (refuse m r).out = none := by
    by_cases hp : m.player = some p
    · have : messagesTo p (refuse m r).out ≠ [] :=
        List.ne_nil_of_mem (mem_messagesTo.2 ⟨List.mem_singleton.2 rfl, hp⟩)
      simp [moved?, this]
    · exact moved?_of_player hp
  rw [observe_of_moved?_eq_none hmoved]
  change _ = Except.ok (r.game.board? p)
  rw [h.board?]
  refine foldlM_hear fun o ho => hear_of_kind ?_
  rw [List.mem_singleton.1 (mem_messagesTo.1 ho).1]
  change r.refusal.kind ∉ _
  rcases r.refusal.kind_cases with hr | hr | hr <;> simp [hr]

theorem Asks.ne {k : Kind} (asks : g.Asks m k name seat) (h : name ≠ p) : m.player ≠ some p := by
  rw [asks.player]
  exact fun he => h (Option.some.inj he)

theorem observe_quiet (hk : m.kind ≠ .moveGameTiles) (hb : t.game.board? p = g.board? p)
    (h : ∀ o ∈ messagesTo p t.out, hear p m (g.board? p) o = .ok (g.board? p)) :
    observe p m t.out (g.board? p) = .ok (t.game.board? p) := by
  rw [observe_of_moved?_eq_none (moved?_of_kind hk), hb]
  exact foldlM_hear h

theorem observe_one (hk : m.kind ≠ .moveGameTiles) (hm : messagesTo p t.out = [o])
    (h : hear p m (g.board? p) o = .ok (t.game.board? p)) :
    observe p m t.out (g.board? p) = .ok (t.game.board? p) := by
  rw [observe_of_moved?_eq_none (moved?_of_kind hk), hm, List.foldlM_cons, h]
  rfl

theorem Sound.observe_joined (hg : g.Sound) (kind : m.kind = .joinGame) {b : Board} {grid : Grid}
    (absent : g.seats.get? name = none) {n : Nat}
    (hand : Board.ofTiles grid (g.pool.take n) = .ok b) :
    observe p m (Game.joined { g with pool := g.pool.drop n } name b m.socket).out (g.board? p) =
      .ok ((Game.joined { g with pool := g.pool.drop n } name b m.socket).game.board? p) := by
  have hk : m.kind ≠ .moveGameTiles := by simp [kind]
  have hnew := board?_joined { g with pool := g.pool.drop n } name b m.socket p
  by_cases hp : p = name
  · subst hp
    refine observe_one hk (messagesTo_joined _ p b m.socket) ?_
    obtain ⟨b', hb', -, hhand, -, hgrid⟩ := hg.newcomer grid n
    rw [hb'] at hand
    cases hand
    have hold : g.board? p = none := by rw [Game.board?, absent]; rfl
    rw [hnew, if_pos rfl, hold]
    change some <$> Board.ofTiles b.grid b.hand = _
    rw [hhand, hgrid, hb']
    rfl
  · refine observe_quiet hk (hnew.trans (if_neg hp)) fun o ho => hear_of_kind ?_
    obtain ⟨ho, hto⟩ := mem_messagesTo.1 ho
    obtain ho | ho := List.mem_append.1 ho
    · obtain rfl | ho := List.mem_cons.1 ho
      · exact (hp (Option.some.inj hto).symm).elim
      · obtain ⟨x, -, rfl⟩ := List.mem_map.1 ho
        simp
    · rw [List.mem_singleton.1 ho]
      simp

theorem Dealt.mem_pool {names : List String} {g' : Game} {dealt : List (String × Tile)}
    (h : Dealt g names g' dealt) {tile : Tile} (ht : dealt.lookup p = some tile) :
    tile ∈ g.pool := by
  obtain ⟨l, l', hl, -⟩ := List.lookup_eq_some_iff.1 ht
  have hm : (p, tile) ∈ dealt := hl ▸ List.mem_append_right _ List.mem_cons_self
  rw [h.tiles] at hm
  exact (List.of_mem_zip hm).2

theorem Sound.observe_snagged (hg : g.Sound) (kind : m.kind = .snagGameTile) {names : List String}
    {g' : Game} {dealt : List (String × Tile)} {shuffler : Shuffler}
    (h : Dealt { g with shuffler := shuffler } names g' dealt) :
    observe p m (g'.snagged name dealt).out (g.board? p) =
      .ok ((g'.snagged name dealt).game.board? p) := by
  have hk : m.kind ≠ .moveGameTiles := by simp [kind]
  have hnew : (g'.snagged name dealt).game.board? p =
      (g.seats.get? p).map fun s => (dealtTo dealt p s).board := by
    rw [Game.board?, Game.snagged, h.seats, Option.map_map]
    rfl
  have hplayers : g'.players = g.players := h.players
  cases hs : g.seats.get? p with
  | none =>
    have hp : p ∉ g'.players := hplayers ▸ Table.not_mem_keys.2 hs
    refine observe_quiet hk ?_ fun o ho => ?_
    · rw [hnew, Game.board?, hs]
      rfl
    · rw [g'.messagesTo_snagged_of_not_mem name dealt hp] at ho
      cases ho
  | some seat =>
    have hp : p ∈ g'.players := hplayers ▸ Table.mem_keys.2 ⟨seat, hs⟩
    obtain ⟨o, hm, hkind, htiles, -⟩ := g'.messagesTo_snagged name dealt hp
    refine observe_one hk hm ?_
    rw [hnew, hs, Game.board?, hs, Option.map_some, Option.map_some, hear_snag hkind, htiles,
      dealtTo]
    cases hl : dealt.lookup p with
    | none => rfl
    | some tile =>
      have hfree : seat.board.owned? tile.id = none := hg.free hs (h.mem_pool hl)
      have hadd : seat.board.add tile = .ok (seat.board.hold tile) :=
        Board.add_eq_ok_iff.2 ⟨hfree, rfl⟩
      simp only [Option.map_some, Option.getD_some, List.foldlM_cons, hadd]
      rfl

theorem observe_swapped (asks : g.Asks m .swapGameTile name seat) {tile : Tile} {b c : Board}
    {drawn : List Tile} (offer : (m.tiles.getD []).head? = some tile)
    (remove : seat.board.remove tile = .ok b) (add : drawn.foldlM Board.add b = .ok c) {g' : Game}
    (hseats : g'.seats = (g.setBoard name c).seats) :
    observe p m (g'.swapped name tile drawn m.socket).out (g.board? p) =
      .ok ((g'.swapped name tile drawn m.socket).game.board? p) := by
  have hk : m.kind ≠ .moveGameTiles := by simp [asks.kind]
  have hnew : g'.board? p = if p = name then some c else g.board? p := by
    rw [board?, hseats]
    exact board?_setBoard asks.seat c p
  by_cases hp : p = name
  · subst hp
    obtain ⟨o, hm, hkind, htiles⟩ := g'.messagesTo_swapped p tile drawn m.socket
    refine observe_one hk hm ?_
    have hoffer : offered? p m = some tile := by
      rw [offered?, if_pos ⟨asks.player, asks.kind⟩, offer]
    rw [swapped, hnew, if_pos rfl, asks.board?, hear_swap hkind htiles hoffer, remove]
    change some <$> drawn.foldlM Board.add b = _
    rw [add]
    rfl
  · refine observe_quiet hk (hnew.trans (if_neg hp)) fun o ho => ?_
    obtain ⟨ho, hto⟩ := mem_messagesTo.1 ho
    obtain rfl | ho := List.mem_cons.1 ho
    · exact (hp (Option.some.inj hto).symm).elim
    · obtain ⟨x, -, rfl⟩ := List.mem_map.1 ho
      exact hear_swap_of_others rfl rfl

theorem observe_moved (asks : g.Asks m .moveGameTiles name seat) {ps : List Placement} {b : Board}
    (batch : m.placements = some ps) (move : seat.board.move ps = .ok b) :
    observe p m [] (g.board? p) = .ok ((g.setBoard name b).board? p) := by
  rw [board?_setBoard asks.seat]
  by_cases hp : p = name
  · subst hp
    have hmoved : moved? p m [] = some ps := by
      rw [moved?, if_pos ⟨asks.player, asks.kind, rfl⟩, batch]
    rw [if_pos rfl, asks.board?]
    simp only [observe, hmoved, move]
    rfl
  · rw [if_neg hp, observe_of_moved?_eq_none (moved?_of_player (asks.ne (Ne.symm hp)))]
    rfl

theorem observe_reply {k : Kind} (asks : g.Asks m k name seat) (hk : k ≠ .moveGameTiles)
    (ho : o.player = some name) (hout : t.out = [o])
    (hheard : hear name m (some seat.board) o = .ok (t.game.board? name))
    (hsame : ∀ x ≠ name, t.game.board? x = g.board? x) :
    observe p m t.out (g.board? p) = .ok (t.game.board? p) := by
  have hk : m.kind ≠ .moveGameTiles := asks.kind ▸ hk
  by_cases hp : p = name
  · subst hp
    refine observe_one hk (o := o) ?_ (asks.board? ▸ hheard)
    rw [hout, messagesTo_cons_self ho]
    rfl
  · refine observe_quiet hk (hsame p hp) fun o' ho' => ?_
    rw [hout, messagesTo_cons_of_ne (by simpa [ho] using Ne.symm hp)] at ho'
    cases ho'

theorem Accepted.hear_eq {b : Option Board} (h : g.Accepted m t)
    (hk : m.kind ∈ [.deleteGame, .changeGameStatus, .gameChat]) (ho : o ∈ messagesTo p t.out) :
    hear p m b o = .ok b := by
  apply hear_of_kind
  obtain he | he := h.kind_eq (mem_messagesTo.1 ho).1
  · rw [← he] at hk
    revert hk
    cases o.kind <;> simp
  · revert he
    cases o.kind <;> simp

theorem Sound.observe_accepted (hg : g.Sound) (h : g.Accepted m t) :
    observe p m t.out (g.board? p) = .ok (t.game.board? p) := by
  have hall := h
  cases h with
  | returned asks =>
    exact observe_reply asks (by simp) rfl rfl (by rw [asks.board?]; rfl) fun _ _ => rfl
  | joined kind player absent status room enough hand =>
    exact hg.observe_joined kind absent hand
  | deleted asks | started asks | won asks | chatted asks =>
    refine observe_quiet (by simp [asks.kind]) rfl fun o ho => ?_
    exact hall.hear_eq (by simp [asks.kind]) ho
  | snagged asks now pool check deal =>
    exact hg.observe_snagged asks.kind (hg.of_deal asks.seat deal).2
  | swapped asks now offer pool remove give =>
    obtain ⟨c, hc, -, -, rfl⟩ := hg.of_give asks.seat remove (Shuffler.shuffle_perm _ _) give
    exact observe_swapped asks offer remove hc rfl
  | moved asks now batch move => exact observe_moved asks batch move
  | refreshed asks wish =>
    refine observe_reply asks (by simp) rfl rfl ?_ fun _ _ => rfl
    rw [hear_refresh rfl, wished?_of_grid wish, asks.board?]
  | resized asks wish valid =>
    refine observe_reply asks (by simp) ?_ rfl ?_ ?_
    · split <;> rfl
    · rw [hear_refresh (by split <;> rfl), wished?_of_kind asks.player asks.kind, wish,
        Game.resized, board?_setBoard asks.seat, if_pos rfl]
    · intro x hx
      rw [Game.resized, board?_setBoard asks.seat, if_neg hx]

/-- What a player knows of the own board is right after a step if it was before. -/
theorem Sound.observe (hg : g.Sound) (p : String) (m : Message) :
    TileRace.observe p m (g.handle m).out (g.board? p) = .ok ((g.handle m).game.board? p) := by
  cases h : g.respond m with
  | ok t =>
    rw [Game.handle, h]
    exact hg.observe_accepted (respond_ok h)
  | error r =>
    rw [Game.handle, h]
    exact (hg.rejected h).observe

theorem Sound.follow (hg : g.Sound) (p : String) (ms : List Message) :
    TileRace.follow p g (g.board? p) ms = .ok ((g.play ms).board? p) := by
  induction ms generalizing g with
  | nil => rfl
  | cons m ms ih =>
    rw [TileRace.follow, hg.observe p m]
    exact ih (hg.handle m)

structure Reports (g : Game) (b : Board) (o : Message) : Prop where
  tiles : o.tiles = some b.hand
  placements : o.placements = some b.placed
  grid : o.grid = some b.grid
  tilesLeft : ∃ n, o.tilesLeft = some n ∧ n.toNat = g.pool.length

theorem Sound.toNat_poolSize (hg : g.Sound) : g.poolSize.toNat = g.pool.length := by
  have hle : g.pool.length ≤ g.tiles.length := by
    rw [tiles, List.length_append]
    omega
  have hlt := hg.numbered
  rw [UInt32.size] at hlt
  rw [hg.tiles_perm.length_eq] at hle
  rw [poolSize, UInt64.toNat_ofNat']
  omega

theorem Sound.reports_boardMessage (hg : g.Sound) (k : Kind) (name : String) (b : Board)
    (socket : Option SocketId) : g.Reports b (g.boardMessage k name b socket) :=
  ⟨rfl, rfl, rfl, g.poolSize, rfl, hg.toNat_poolSize⟩

theorem Sound.reports (hg : g.Sound) (h : g.Accepted m t) (ho : o ∈ messagesTo p t.out)
    (hk : o.kind = .joinGame ∨ o.kind = .refreshGameBoard) :
    ∃ b, t.game.board? p = some b ∧ t.game.Reports b o := by
  have hall := h
  have hg' := hg.accepted h
  obtain ⟨ho, hto⟩ := mem_messagesTo.1 ho
  have hkind : o.kind = m.kind := by
    refine (hall.kind_eq ho).resolve_right fun hn => ?_
    rcases hk with hk | hk <;> simp [hk] at hn
  rw [hkind] at hk
  cases h with
  | returned asks | refreshed asks =>
    obtain rfl := List.mem_singleton.1 ho
    obtain rfl := Option.some.inj hto
    exact ⟨_, asks.board?, hg.reports_boardMessage _ _ _ _⟩
  | @joined name b kind =>
    obtain ho | ho := List.mem_append.1 ho
    · obtain rfl | ho := List.mem_cons.1 ho
      · obtain rfl := Option.some.inj hto
        refine ⟨b, ?_, hg'.reports_boardMessage _ _ _ _⟩
        rw [board?_joined, if_pos rfl]
      · obtain ⟨x, -, rfl⟩ := List.mem_map.1 ho
        rw [kind] at hkind
        cases hkind
    · rw [List.mem_singleton.1 ho, kind] at hkind
      cases hkind
  | @resized name seat grid asks =>
    obtain rfl := List.mem_singleton.1 ho
    have hp : p = name := by
      split at hto <;> exact (Option.some.inj hto).symm
    refine ⟨(seat.board.resize grid).1, ?_, ?_⟩
    · rw [Game.resized, board?_setBoard asks.seat, if_pos hp]
    · split <;> exact ⟨rfl, rfl, rfl, _, rfl, hg'.toNat_poolSize⟩
  | deleted asks | started asks | won asks | snagged asks | swapped asks | moved asks
  | chatted asks => simp [asks.kind] at hk

theorem Sound.reports_handle (hg : g.Sound) (ho : o ∈ messagesTo p (g.handle m).out)
    (hk : o.kind = .joinGame ∨ o.kind = .refreshGameBoard) :
    ∃ b, (g.handle m).game.board? p = some b ∧ (g.handle m).game.Reports b o := by
  cases h : g.respond m with
  | ok t =>
    rw [Game.handle, h] at ho ⊢
    exact hg.reports (respond_ok h) ho hk
  | error r =>
    rw [Game.handle, h] at ho
    rw [List.mem_singleton.1 (mem_messagesTo.1 ho).1] at hk
    change r.refusal.kind = _ ∨ r.refusal.kind = _ at hk
    rcases r.refusal.kind_cases with hr | hr | hr <;> simp [hr] at hk

/-- A player who follows the own requests and the messages of a game knows the own board. -/
theorem replica_exact {id : GameId} {settings : Settings} {rules : Rules} {grid : Grid}
    {words : Dictionary} {createdAt : UInt64}
    (hn : (settings.letters.toList.filter Char.isAlpha).length < UInt32.size - 1)
    (h : setUp id settings rules grid words createdAt = .ok g) (p : String) (ms : List Message) :
    follow p g none ms = .ok ((g.play ms).board? p) ∧
    ∀ m, ∀ o ∈ messagesTo p ((g.play ms).handle m).out,
      o.kind = .joinGame ∨ o.kind = .refreshGameBoard →
      ∃ b, follow p g none (ms ++ [m]) = .ok (some b) ∧
        ((g.play ms).handle m).game.Reports b o := by
  have hg : g.Sound := .setUp hn h
  have hnone : g.board? p = none := by
    rw [setUp_eq_ok h]
    rfl
  have hfollow (ms) : follow p g none ms = .ok ((g.play ms).board? p) := hnone ▸ hg.follow p ms
  refine ⟨hfollow ms, fun m o ho hk => ?_⟩
  obtain ⟨b, hb, hr⟩ := (hg.play ms).reports_handle ho hk
  refine ⟨b, ?_, hr⟩
  rw [hfollow, play, List.foldl_append]
  exact congrArg Except.ok hb

theorem replica_exact_swapRun : ∃ g : Game,
    ("CATDOGS".toList.filter Char.isAlpha).length < UInt32.size - 1 ∧
    setUp 1 { letters := "CATDOGS", handSize := 2 } .standard .standard ⟨["CAT"]⟩ 0 = .ok g ∧
    follow "ann" g none swapRun = .ok ((g.play swapRun).board? "ann") ∧
    ((g.play swapRun).board? "ann").map (·.hand) =
      some [⟨2, 'A'⟩, ⟨5, 'O'⟩, ⟨6, 'G'⟩, ⟨7, 'S'⟩] := by
  have hn : ("CATDOGS".toList.filter Char.isAlpha).length < UInt32.size - 1 := by decide
  have h : setUp 1 { letters := "CATDOGS", handSize := 2 } .standard .standard ⟨["CAT"]⟩ 0 =
    .ok _ := rfl
  exact ⟨_, hn, h, (replica_exact hn h "ann" swapRun).1, rfl⟩

end Game

end TileRace
