import TileRace.Proofs.Game.Farewell
import TileRace.Proofs.Game.Replica

namespace TileRace

/-- The board is `c` once its player has been dealt a tile, if there was one left: the tile comes
last in the hand. -/
def Board.Gains (b : Board) : Option Tile → Board → Prop
  | none, c => c = b
  | some tile, c =>
    b.add tile = .ok c ∧ c.hand = b.hand ++ [tile] ∧ c.placed = b.placed ∧ c.grid = b.grid

theorem Board.Coherent.gains_hold {b : Board} {tile : Tile} (hb : b.Coherent)
    (ht : b.owned? tile.id = none) : b.Gains (some tile) (b.hold tile) :=
  ⟨add_eq_ok_iff.2 ⟨ht, rfl⟩, hb.hand_hold ht, rfl, rfl⟩

namespace Game

variable {g g' : Game} {m o : Message} {name x : String} {names : List String} {i : Nat} {t : Turn}
  {dealt : List (String × Tile)}

/-- The players in the order in which they take a tile when one of them snags. -/
def turns (g : Game) (name : String) : List String :=
  name :: (g.shuffler.shuffle (g.others name)).1

theorem others_eq_erase (g : Game) (name : String) : g.others name = g.players.erase name := by
  have hn : g.players.Nodup := g.seats.keys_nodup
  rw [others, hn.erase_eq_filter]
  exact List.filter_congr fun x _ => by simp [bne, beq_eq_decide]

theorem perm_cons_others (h : name ∈ g.players) : (name :: g.others name).Perm g.players := by
  rw [others_eq_erase]
  exact (List.perm_cons_erase h).symm

theorem turns_perm (h : name ∈ g.players) : (g.turns name).Perm g.players :=
  ((Shuffler.shuffle_perm _ _).cons name).trans (perm_cons_others h)

theorem Dealt.lookup (h : Dealt g names g' dealt) (hn : names.Nodup) (hi : names[i]? = some x) :
    dealt.lookup x = g.pool[i]? := by
  rw [h.tiles, Table.lookup_zip hn hi]

/-- What a snag by a player makes of a game. In their turns the players take a tile each from the
front of the pool, while there are any, and each of them is told of the own tile. -/
structure Snags (g : Game) (name : String) (t : Turn) : Prop where
  pool : t.game.pool = g.pool.drop (min g.pool.length g.players.length)
  frame : t.game = { g with
    pool := t.game.pool
    seats := t.game.seats
    shuffler := (g.shuffler.shuffle (g.others name)).2 }
  players : t.game.players = g.players
  seats : ∀ (i : Nat) (x : String), (g.turns name)[i]? = some x → ∃ seat b, g.seats.get? x = some seat ∧
    t.game.seats.get? x = some { seat with board := b } ∧ seat.board.Gains g.pool[i]? b
  told : ∀ (i : Nat) (x : String), (g.turns name)[i]? = some x → ∃ o left, messagesTo x t.out = [o] ∧
    o.kind = .snagGameTile ∧ o.tilesLeft = some left ∧
    left.toNat = g.pool.length - min g.pool.length g.players.length ∧
    o.tiles = g.pool[i]?.map ([·])
  only : ∀ o ∈ t.out, ∃ x ∈ g.players, o.player = some x

theorem seats_dealt (hg : g.Sound) {shuffler : Shuffler} (hn : names.Nodup)
    (h : Dealt { g with shuffler := shuffler } names g' dealt) (hi : names[i]? = some x)
    (hx : x ∈ g.players) : ∃ seat b, g.seats.get? x = some seat ∧
      g'.seats.get? x = some { seat with board := b } ∧ seat.board.Gains g.pool[i]? b := by
  obtain ⟨seat, hs⟩ := Table.mem_keys.1 hx
  have hafter := h.seats x
  rw [hs, Option.map_some, dealtTo, h.lookup hn hi] at hafter
  cases htile : g.pool[i]? with
  | none => exact ⟨seat, seat.board, hs, by rw [hafter, htile], rfl⟩
  | some tile =>
    have hfree := hg.free hs (List.mem_of_getElem? htile)
    exact ⟨seat, seat.board.hold tile, hs, by rw [hafter, htile],
      (hg.boards hs).gains_hold hfree⟩

theorem Sound.snags (hg : g.Sound) {seat : Seat} (asks : g.Asks m .snagGameTile name seat)
    (deal : Game.deal { g with shuffler := (g.shuffler.shuffle (g.others name)).2 }
      (g.turns name) = .ok (g', dealt)) : g.Snags name (g'.snagged name dealt) := by
  obtain ⟨hg', hD⟩ := hg.of_deal asks.seat deal
  have hperm := turns_perm asks.mem_players
  have hn : (g.turns name).Nodup := hperm.nodup_iff.2 g.seats.keys_nodup
  have hplayers : g'.players = g.players := hD.players
  have hpool : g'.pool = g.pool.drop (min g.pool.length g.players.length) := by
    have hlen : (g.turns name).length = g.players.length := hperm.length_eq
    have hdrop : g'.pool = g.pool.drop (g.turns name).length := hD.pool
    rw [hdrop, hlen, Nat.min_comm, ← List.drop_eq_drop_min]
  refine ⟨hpool, hD.rest, hplayers, fun i x hi => ?_, fun i x hi => ?_, fun o ho => ?_⟩
  · exact seats_dealt hg hn hD hi (hperm.mem_iff.1 (List.mem_of_getElem? hi))
  · have hx : x ∈ g'.players := hplayers ▸ hperm.mem_iff.1 (List.mem_of_getElem? hi)
    obtain ⟨o, hm, hkind, htiles, hleft⟩ := g'.messagesTo_snagged name dealt hx
    refine ⟨o, _, hm, hkind, hleft, ?_, ?_⟩
    · rw [hg'.toNat_poolSize, hpool, List.length_drop]
    · rw [htiles, hD.lookup hn hi]
  · simp only [snagged] at ho
    obtain ⟨x, hx, rfl⟩ := mem_toAll.1 ho
    exact ⟨x, hplayers ▸ hx, rfl⟩

/-- A snag deals the front of the pool, and tells everybody what they got. -/
theorem snag_deals (hg : g.Reachable) (hk : m.kind = .snagGameTile) (h : g.respond m = .ok t) :
    ∃ name, m.player = some name ∧ (g.turns name).Perm g.players ∧
      (g.others name).Pairwise (· < ·) ∧ g.pool ≠ [] ∧ g.Snags name (g.handle m) := by
  rw [handle, h]
  cases respond_ok h with
  | @snagged name seat g' dealt asks now pool check deal =>
    exact ⟨name, asks.player, turns_perm asks.mem_players, g.players_sorted.filter _, pool,
      hg.sound.snags asks deal⟩
  | joined kind => cases hk.symm.trans kind
  | returned asks | deleted asks | started asks | won asks | swapped asks | moved asks
  | chatted asks | refreshed asks | resized asks => cases hk.symm.trans asks.kind

def gathering : List Message :=
  opening.take 2 ++ [{ kind := .joinGame, player := some "carol" }] ++ opening.drop 2

theorem snag_deals_gathering : ∃ (g : Game) (m : Message) (t : Turn), g.Reachable ∧
    m.kind = .snagGameTile ∧ g.respond m = .ok t ∧ g.Snags "bob" (g.handle m) ∧
    ["ann", "bob", "carol"].map (fun x => ((g.handle m).game.board? x).map (·.hand.length)) =
      [some 3, some 3, some 2] := by
  have hn : ("ABCDEFGH".toList.filter Char.isAlpha).length < UInt32.size - 1 := by decide
  have h : setUp 1 { letters := "ABCDEFGH", handSize := 2 } ⟨false, false, 2, true⟩ .standard
    ⟨[]⟩ 0 = .ok _ := rfl
  have hg := (Reachable.setUp hn h).play gathering
  obtain ⟨name, hname, -, -, -, hsnags⟩ :=
    snag_deals (m := { kind := .snagGameTile, player := some "bob" }) hg rfl rfl
  obtain rfl : "bob" = name := Option.some.inj hname
  exact ⟨_, _, _, hg, rfl, rfl, hsnags, rfl⟩

end Game

end TileRace
