import TileRace.Proofs.Game.Check
import TileRace.Proofs.Game.Conservation

namespace TileRace.Game

variable {g : Game} {m : Message} {name : String} {seat : Seat} {t : Turn}

theorem Asks.seated {k : Kind} (asks : g.Asks m k name seat) : g.seated m = .ok (name, seat) :=
  seated_eq_ok.2 ⟨asks.player, asks.seat⟩

theorem respond_won {wanted : Summary} (asks : g.Asks m .changeGameStatus name seat)
    (game : m.game = some wanted)
    (next : wanted.status = .finished ∨ wanted.status = .finishedAllowMove)
    (now : g.status = .inProgress) (pool : g.pool = [])
    (check : g.rules.check g.words seat.board = .ok ()) :
    g.respond m = .ok (g.won name seat wanted.status) := by
  rw [respond, asks.kind]
  simp only [changeStatus, bind_eq_ok, Prod.exists, asks.seated]
  refine ⟨name, seat, rfl, ?_⟩
  rw [game, now]
  rcases next with next | next <;>
    simpa only [next] using finish_eq_ok.2 ⟨pool, check, rfl⟩

theorem Sound.respond_snagged (hg : g.Sound) (asks : g.Asks m .snagGameTile name seat)
    (now : g.status = .inProgress) (pool : g.pool ≠ [])
    (check : g.rules.checkOnSnag → g.rules.check g.words seat.board = .ok ()) :
    ∃ (g' : Game) (dealt : List (String × Tile)), g.respond m = .ok (g'.snagged name dealt) ∧
      g'.pool.length < g.pool.length ∧
      (g'.board? name).map (·.hand) = some (seat.board.hand ++ g.pool.take 1) := by
  obtain ⟨g', dealt, hd, -, hD⟩ := hg.snag asks.seat
  obtain ⟨tile, rest, hpool⟩ := List.exists_cons_of_ne_nil pool
  refine ⟨g', dealt, ?_, ?_, ?_⟩
  · rw [respond, asks.kind]
    simp only [Game.snag, bind_eq_ok, Prod.exists, requireStatus, require_eq_ok,
      checkOnSnag_eq_ok, pure_eq_ok]
    exact ⟨name, seat, asks.seated, ⟨⟩, by simp [now], ⟨⟩, pool, ⟨⟩, check,
      g', dealt, hd, rfl⟩
  · have hdrop : g'.pool = g.pool.drop _ := hD.pool
    rw [hdrop, hpool, List.length_cons, List.drop_succ_cons, List.length_drop, List.length_cons]
    omega
  · have htile : dealt.lookup name = some tile := by
      rw [hD.tiles, hpool]
      simp
    have hfree := hg.free asks.seat (hpool ▸ List.mem_cons_self : tile ∈ g.pool)
    rw [Game.board?, hD.seats, asks.seat, Option.map_some, dealtTo, htile, hpool]
    exact congrArg some ((hg.boards asks.seat).hand_hold hfree)

theorem Sound.status_accepted (hg : g.Sound) (h : g.Accepted m t) (hnow : g.status = .inProgress)
    (hnext : t.game.status ≠ .inProgress) :
    ∃ name seat wanted, g.Asks m .changeGameStatus name seat ∧ m.game = some wanted ∧
      wanted.status.isFinished ∧ g.pool = [] ∧ g.rules.check g.words seat.board = .ok () := by
  cases h with
  | won asks game now next pool check => exact ⟨_, _, _, asks, game, next, pool, check⟩
  | returned | deleted | chatted | refreshed | joined | moved | resized => exact (hnext hnow).elim
  | started asks game now next =>
    rw [now] at hnow
    cases hnow
  | snagged asks now pool check deal =>
    obtain ⟨-, hD⟩ := hg.of_deal asks.seat deal
    rw [Game.snagged, hD.rest] at hnext
    exact (hnext hnow).elim
  | swapped asks now offer pool remove give =>
    obtain ⟨c, -, -, -, rfl⟩ := hg.of_give asks.seat remove (Shuffler.shuffle_perm _ _) give
    exact (hnext hnow).elim

theorem isFinished_iff {s : Status} : s.isFinished ↔ s = .finished ∨ s = .finishedAllowMove := by
  cases s <;> simp [Status.isFinished]

/-- A game in progress ends when a player who has no tile left to draw asks for it with a board
that deserves it, and in no other way. -/
theorem Sound.ends_iff (hg : g.Sound) (m : Message) :
    (g.status = .inProgress ∧ (g.handle m).game.status ≠ .inProgress) ↔
      ∃ name seat wanted, g.Asks m .changeGameStatus name seat ∧ m.game = some wanted ∧
        (wanted.status = .finished ∨ wanted.status = .finishedAllowMove) ∧
        g.status = .inProgress ∧ g.pool = [] ∧ seat.board.Deserving g.rules g.words := by
  constructor
  · rintro ⟨hnow, hnext⟩
    rw [Game.handle] at hnext
    split at hnext
    · rename_i t ht
      obtain ⟨name, seat, wanted, asks, game, next, pool, check⟩ :=
        hg.status_accepted (respond_ok ht) hnow hnext
      exact ⟨name, seat, wanted, asks, game, isFinished_iff.1 next, hnow, pool,
        (Rules.check_eq_ok_iff (hg.boards asks.seat)).1 check⟩
    · rename_i r hr
      change r.game.status ≠ _ at hnext
      rw [(hg.rejected hr).game_eq] at hnext
      exact (hnext hnow).elim
  · rintro ⟨name, seat, wanted, asks, game, next, now, pool, hboard⟩
    have hcheck := (Rules.check_eq_ok_iff (hg.boards asks.seat)).2 hboard
    rw [Game.handle, respond_won asks game next now pool hcheck]
    refine ⟨now, fun h => ?_⟩
    have h : wanted.status = .inProgress := h
    rcases next with next | next <;> rw [next] at h <;> cases h

theorem Sound.snag_of_check_ne (hg : g.Sound) (asks : g.Asks m .snagGameTile name seat)
    (now : g.status = .inProgress) (pool : g.pool ≠ []) (rule : g.rules.checkOnSnag)
    (check : g.rules.check g.words seat.board ≠ .ok ()) :
    (g.handle m).game.pool = g.pool ∧ (g.handle m).game.board? name = some seat.board := by
  rw [Game.handle]
  split
  · rename_i t ht
    exact ((respond_ok ht).passes
      ⟨asks.player, asks.seat, (checks_snag asks.kind).2 ⟨now, pool, rule⟩, check⟩).elim
  · rename_i r hr
    have h := hg.rejected hr
    change r.game.pool = _ ∧ r.game.board? _ = _
    rw [h.board?, asks.board?]
    exact ⟨by rw [h.game_eq], rfl⟩

/-- With checked snags, a player draws with a board that deserves it, and with no other. -/
theorem Sound.snags_iff (hg : g.Sound) (asks : g.Asks m .snagGameTile name seat)
    (now : g.status = .inProgress) (pool : g.pool ≠ []) (rule : g.rules.checkOnSnag) :
    ((g.handle m).game.pool.length < g.pool.length ↔ seat.board.Deserving g.rules g.words) ∧
    (((g.handle m).game.board? name).map (·.hand) = some (seat.board.hand ++ g.pool.take 1) ↔
      seat.board.Deserving g.rules g.words) := by
  rw [← Rules.check_eq_ok_iff (hg.boards asks.seat)]
  by_cases hcheck : g.rules.check g.words seat.board = .ok ()
  · obtain ⟨g', dealt, ht, hlt, hhand⟩ := hg.respond_snagged asks now pool fun _ => hcheck
    rw [Game.handle, ht]
    exact ⟨iff_of_true hlt hcheck, iff_of_true hhand hcheck⟩
  · obtain ⟨hpool, hboard⟩ := hg.snag_of_check_ne asks now pool rule hcheck
    rw [hpool, hboard]
    refine ⟨iff_of_false (Nat.lt_irrefl _) hcheck, iff_of_false (fun h => pool ?_) hcheck⟩
    simpa using Option.some.inj h

/-- Games end, and checked snags are dealt, by the state of the board and not by its history. -/
theorem victory_iff_deserving (hg : g.Reachable) (m : Message) :
    ((g.status = .inProgress ∧ (g.handle m).game.status ≠ .inProgress) ↔
      ∃ name seat wanted, g.Asks m .changeGameStatus name seat ∧ m.game = some wanted ∧
        (wanted.status = .finished ∨ wanted.status = .finishedAllowMove) ∧
        g.status = .inProgress ∧ g.pool = [] ∧ seat.board.Deserving g.rules g.words) ∧
    ∀ name seat, g.Asks m .snagGameTile name seat → g.status = .inProgress → g.pool ≠ [] →
      g.rules.checkOnSnag →
      ((g.handle m).game.pool.length < g.pool.length ↔ seat.board.Deserving g.rules g.words) ∧
      (((g.handle m).game.board? name).map (·.hand) = some (seat.board.hand ++ g.pool.take 1) ↔
        seat.board.Deserving g.rules g.words) :=
  ⟨hg.sound.ends_iff m, fun _ _ => hg.sound.snags_iff⟩

def catRun : List Message :=
  opening ++ [{ kind := .moveGameTiles, player := some "ann",
                placements := some [⟨⟨1, 'C'⟩, 4, 7⟩, ⟨⟨2, 'A'⟩, 5, 7⟩, ⟨⟨3, 'T'⟩, 6, 7⟩] }]

theorem victory_iff_deserving_catRun : ∃ (g : Game) (seat : Seat), g.Reachable ∧
    g.Asks finishing .changeGameStatus "ann" seat ∧
    (g.handle finishing).game.status = .finished ∧ seat.board.Deserving g.rules g.words := by
  have hn : ("CATDOG".toList.filter Char.isAlpha).length < UInt32.size - 1 := by decide
  have h : setUp 1 { letters := "CATDOG", handSize := 3 } .standard .standard ⟨["CAT"]⟩ 0 =
    .ok _ := rfl
  have hg := (Reachable.setUp hn h).play catRun
  obtain ⟨name, seat, wanted, asks, -, -, -, -, hboard⟩ :=
    (victory_iff_deserving hg finishing).1.1 ⟨rfl, by decide⟩
  obtain rfl : "ann" = name := Option.some.inj asks.player
  exact ⟨_, seat, hg, asks, rfl, hboard⟩

end TileRace.Game
