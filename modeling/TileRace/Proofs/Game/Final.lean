import TileRace.Proofs.Board.Eviction
import TileRace.Proofs.Game.Disclosure
import TileRace.Proofs.Game.Replica

namespace TileRace.Game

variable {g : Game} {m o : Message} {ms ms' : List Message} {name : String} {seat : Seat}
  {b : Board} {t : Turn}

/-- The grids that a player asks for, of those that can be had. -/
def wishes (name : String) (ms : List Message) : List Grid :=
  ms.filterMap fun m => (wished? name m).filter Grid.isValid

theorem wishes_cons (name : String) (m : Message) (ms : List Message) :
    wishes name (m :: ms) = wishes name [m] ++ wishes name ms :=
  List.filterMap_append (l := [m])

theorem respond_resized {grid : Grid} (asks : g.Asks m .refreshGameBoard name seat)
    (wish : m.grid = some grid) (valid : grid.isValid) : g.respond m =
      .ok (g.resized name (seat.board.resize grid).1 (seat.board.resize grid).2 m.socket) := by
  rw [respond, asks.kind]
  simp only [refresh, bind_eq_ok, Prod.exists, asks.seated]
  refine ⟨name, seat, rfl, ?_⟩
  rw [wish]
  simp only [bind_eq_ok, require_eq_ok, pure_eq_ok]
  exact ⟨⟨⟩, valid, trivial⟩

theorem board?_handle_finished (hf : g.status = .finished)
    (hm : ∀ seat grid, g.Asks m .refreshGameBoard name seat → m.grid = some grid →
      ¬ grid.isValid) : (g.handle m).game.board? name = g.board? name := by
  have hover : g.status.isFinished := hf ▸ rfl
  have hnot {s : Status} (hs : g.status = s) (hne : s ≠ .finished) : False := hne (hs ▸ hf)
  rw [handle]
  split
  · rename_i t h
    cases respond_ok h with
    | returned | deleted | chatted | refreshed => rfl
    | joined kind player absent status => exact (hnot status (by decide)).elim
    | started asks game now => exact (hnot now (by decide)).elim
    | won asks game now => exact (hnot now (by decide)).elim
    | snagged asks now => exact (hnot now (by decide)).elim
    | swapped asks now => exact (hnot now (by decide)).elim
    | moved asks now => exact (now.elim (hnot · (by decide)) (hnot · (by decide))).elim
    | @resized x s grid asks wish valid =>
      rw [resized, board?_setBoard asks.seat, if_neg]
      rintro rfl
      exact hm _ _ asks wish valid
  · rename_i r h
    obtain hr | hr := stopped_of_error h
    · exact congrArg (board? · name) hr
    · exact (hr.1 hover).elim

theorem Orderly.placed_handle (hg : g.Orderly) (hf : g.status = .finished)
    (hb : (g.handle m).game.board? name = some b) : ∃ c, g.board? name = some c ∧
      b.placed = c.placed.filter fun p => (wishes name [m]).all (·.contains p.cell) := by
  by_cases hm : ∃ seat grid, g.Asks m .refreshGameBoard name seat ∧ m.grid = some grid ∧ grid.isValid
  · obtain ⟨seat, grid, asks, wish, valid⟩ := hm
    rw [handle, respond_resized asks wish valid] at hb
    have hboard := board?_setBoard asks.seat (seat.board.resize grid).1 name
    rw [if_pos rfl] at hboard
    obtain rfl := Option.some.inj (hboard.symm.trans hb)
    have hwish : wishes name [m] = [grid] := by
      rw [wishes, List.filterMap_cons, wished?_of_kind asks.player asks.kind, wish,
        Option.filter_some, if_pos valid]
      rfl
    refine ⟨seat.board, asks.board?, ?_⟩
    rw [(hg _ _ asks.seat).placed_resize, hwish]
    simp
  · rw [board?_handle_finished hf fun seat grid asks wish valid => hm ⟨seat, grid, asks, wish, valid⟩]
      at hb
    obtain ⟨seat, hs, -⟩ := board?_eq_some.1 hb
    have hwish : wishes name [m] = [] := by
      rw [wishes, List.filterMap_eq_nil_iff]
      intro x hx
      obtain rfl := List.mem_singleton.1 hx
      refine Option.filter_eq_none_iff.2 fun grid hgrid valid => hm ?_
      obtain ⟨⟨hp, hk⟩, hgrid⟩ := Option.ite_none_right_eq_some.1 hgrid
      exact ⟨seat, grid, ⟨hk, hp, hs⟩, hgrid, valid⟩
    refine ⟨b, hb, ?_⟩
    rw [hwish]
    simp

/-- A tile stays placed as long as its player wishes for no grid without its cell. -/
theorem Ordered.placed_play (hg : g.Ordered) (hf : g.status = .finished)
    (hb : (g.play ms).board? name = some b) : ∃ c, g.board? name = some c ∧
      b.placed = c.placed.filter fun p => (wishes name ms).all (·.contains p.cell) := by
  induction ms generalizing g with
  | nil => exact ⟨b, hb, (List.filter_eq_self.2 fun _ _ => rfl).symm⟩
  | cons m ms ih =>
    have hnext : (g.handle m).game.status = .finished := by
      rw [(hg.orderly.settled_handle (hf ▸ rfl) m).status, hf]
    obtain ⟨c, hc, hbc⟩ := ih (hg.handle m) hnext hb
    obtain ⟨d, hd, hcd⟩ := hg.orderly.placed_handle hf hc
    refine ⟨d, hd, ?_⟩
    rw [hbc, hcd, List.filter_filter, wishes_cons name m ms]
    refine List.filter_congr fun p _ => ?_
    rw [List.all_append, Bool.and_comm]

theorem Accepted.won_of_ends (h : g.Accepted m t) (hnow : ¬ g.status.isFinished)
    (hnext : t.game.status.isFinished) : ∃ name seat status, g.status = .inProgress ∧
      t = g.won name seat status := by
  cases h.progress with
  | none redealt => exact (hnow (redealt.status ▸ hnext)).elim
  | joined now absent room coherent game =>
    rw [game] at hnext
    exact (hnow hnext).elim
  | started now game =>
    rw [game] at hnext
    cases hnext
  | won asks now next pool game award =>
    cases h with
    | @won name seat wanted => exact ⟨name, seat, wanted.status, now, rfl⟩
    | _ => cases award

theorem exists_ending (hnow : ¬ g.status.isFinished) (hnext : (g.play ms).status.isFinished) :
    ∃ before m after, ms = before ++ m :: after ∧ ¬ (g.play before).status.isFinished ∧
      ((g.play before).handle m).game.status.isFinished := by
  induction ms generalizing g with
  | nil => exact (hnow hnext).elim
  | cons m ms ih =>
    by_cases hm : (g.handle m).game.status.isFinished
    · exact ⟨[], m, ms, rfl, hnow, hm⟩
    · obtain ⟨before, m', after, rfl, hbefore, hafter⟩ := ih hm hnext
      exact ⟨m :: before, m', after, rfl, hbefore, hafter⟩

theorem sends_append (g : Game) (ms ms' : List Message) :
    g.sends (ms ++ ms') = g.sends ms ++ (g.play ms).sends ms' := by
  induction ms generalizing g with
  | nil => rfl
  | cons m ms ih => rw [List.cons_append, sends, ih, sends, List.append_assoc]; rfl

theorem Ordered.ends_of_finalBoards (hg : g.Ordered) (ho : o ∈ g.sends ms)
    (hfinal : o.finalBoards.isSome) : ¬ g.status.isFinished ∧ (g.play ms).status.isFinished := by
  induction ms generalizing g with
  | nil => cases ho
  | cons m ms ih =>
    obtain ho | ho := List.mem_append.1 ho
    · obtain ⟨hnow, hnext⟩ := (hg.orderly.discloses_handle ho).final hfinal
      have hend : (g.handle m).game.status.isFinished := by
        have hstatus := (g.progress m).advances.status
        rw [hnow] at hstatus
        generalize (g.handle m).game.status = s at hstatus hnext
        cases hstatus with
        | stay => exact (hnext rfl).elim
        | finish h => exact h
      refine ⟨by simp [hnow, Status.isFinished], ?_⟩
      change ((g.handle m).game.play ms).status.isFinished
      rwa [((hg.handle m).settled_play hend ms).status]
    · obtain ⟨hnow, hnext⟩ := ih (hg.handle m) ho
      refine ⟨fun hf => hnow ?_, hnext⟩
      rwa [(hg.orderly.settled_handle hf m).status]

theorem exists_won_out {status : Status} {x : String} (hx : x ∈ g.players) :
    ∃ o ∈ (g.won name seat status).out,
      o.kind = .changeGameStatus ∧ o.player = some x ∧ o.finalBoards = some g.finalBoards :=
  ⟨_, List.mem_append_left _ (mem_toAll.2 ⟨x, hx, rfl⟩), rfl, rfl, rfl⟩

theorem finalBoards_won {status : Status} (ho : o ∈ (g.won name seat status).out)
    (hfinal : o.finalBoards.isSome) : o.finalBoards = some g.finalBoards := by
  obtain ho | ho := List.mem_append.1 ho
  · obtain ⟨x, -, rfl⟩ := mem_toAll.1 ho
    rfl
  · rw [List.mem_singleton.1 ho] at hfinal
    cases hfinal

theorem get?_finalBoards (h : g.board? name = some b) :
    g.finalBoards.get? name = some b.placed := by
  obtain ⟨seat, hs, rfl⟩ := board?_eq_some.1 h
  rw [finalBoards, Table.get?_map, hs]
  rfl

/-- With `m` the game is over, and `boards` are the final boards: all players are sent them, and
nothing else as final boards in the whole run. After that a tile stays where they show it, unless
its player asks for a grid without that cell. -/
structure Ended (g : Game) (before : List Message) (m : Message) (after : List Message)
    (boards : Table String (List Placement)) : Prop where
  now : (g.play before).status = .inProgress
  told : ∀ x ∈ (g.play (before ++ m :: after)).players, ∃ o ∈ ((g.play before).handle m).out,
    o.kind = .changeGameStatus ∧ o.player = some x ∧ o.finalBoards = some boards
  only : ∀ o ∈ g.sends (before ++ m :: after), o.finalBoards.isSome → o.finalBoards = some boards
  placed : ∀ name b, (g.play (before ++ m :: after)).board? name = some b →
    ∃ final, boards.get? name = some final ∧
      b.placed = final.filter (fun p => (wishes name after).all (·.contains p.cell)) ∧
      (b.placed = final ↔ ∀ w ∈ wishes name after, ∀ p ∈ final, w.contains p.cell)

theorem final_boards {id : GameId} {settings : Settings} {rules : Rules} {grid : Grid}
    {words : Dictionary} {createdAt : UInt64}
    (h : setUp id settings rules grid words createdAt = .ok g) (ms : List Message)
    (hf : (g.play ms).status = .finished) :
    ∃ before m after boards, ms = before ++ m :: after ∧ g.Ended before m after boards := by
  have hg : g.Ordered := .setUp h
  have hnew : ¬ g.status.isFinished := by
    obtain rfl := setUp_eq_ok h
    exact nofun
  have hover : (g.play ms).status.isFinished := by
    rw [hf]
    rfl
  obtain ⟨before, m, after, rfl, hnow, hnext⟩ := exists_ending hnew hover
  have hafter := (hg.play before).handle m
  have hsettled := hafter.settled_play hnext after
  have hplay : g.play (before ++ m :: after) = ((g.play before).handle m).game.play after :=
    play_append ..
  -- the step that ends the game is a victory
  obtain ⟨winner, seat, status, hprogress, hwon⟩ : ∃ winner seat status,
      (g.play before).status = .inProgress ∧
        (g.play before).handle m = (g.play before).won winner seat status := by
    cases hr : (g.play before).respond m with
    | ok t =>
      rw [handle, hr] at hnext ⊢
      exact (respond_ok hr).won_of_ends hnow hnext
    | error r =>
      rw [handle, hr] at hnext
      exact (hnow ((stopped_of_error hr).redealt.status ▸ hnext)).elim
  refine ⟨before, m, after, (g.play before).finalBoards, rfl, hprogress, fun x hx => ?_,
    fun o ho hfinal => ?_, fun name b hb => ?_⟩
  · rw [hplay, hsettled.players, hwon] at hx
    rw [hwon]
    exact exists_won_out hx
  · rw [sends_append] at ho
    obtain ho | ho := List.mem_append.1 ho
    · exact (hnow (hg.ends_of_finalBoards ho hfinal).2).elim
    obtain ho | ho := List.mem_append.1 ho
    · rw [hwon] at ho
      exact finalBoards_won ho hfinal
    · exact ((hafter.ends_of_finalBoards ho hfinal).1 hnext).elim
  · rw [hplay] at hf hb
    rw [hsettled.status] at hf
    obtain ⟨c, hc, hplaced⟩ := hafter.placed_play hf hb
    rw [hwon] at hc
    refine ⟨c.placed, get?_finalBoards hc, hplaced, ?_⟩
    rw [hplaced, List.filter_eq_self]
    simp only [List.all_eq_true]
    exact ⟨fun hall w hw p hp => hall p hp w hw, fun hall p hp w hw => hall w hw p hp⟩

def regridding (grid : Grid) : Message :=
  { kind := .refreshGameBoard, player := some "ann", grid := some grid }

theorem final_boards_catRun : ∃ g before m after boards,
    setUp 1 { letters := "CATDOG", handSize := 3 } .standard .standard ⟨["CAT"]⟩ 0 = .ok g ∧
    (g.play (catRun ++ [finishing, regridding ⟨8, 8⟩])).status = .finished ∧
    catRun ++ [finishing, regridding ⟨8, 8⟩] = before ++ m :: after ∧
    g.Ended before m after boards := by
  have h : setUp 1 { letters := "CATDOG", handSize := 3 } .standard .standard ⟨["CAT"]⟩ 0 =
    .ok _ := rfl
  obtain ⟨before, m, after, boards, hsplit, hended⟩ :=
    final_boards h (catRun ++ [finishing, regridding ⟨8, 8⟩]) rfl
  exact ⟨_, before, m, after, boards, h, rfl, hsplit, hended⟩

/-- On a grid of a single cell nothing is left of the winner's final board. -/
theorem final_board_cleared : ∃ g o,
    setUp 1 { letters := "CATDOG", handSize := 3 } .standard .standard ⟨["CAT"]⟩ 0 = .ok g ∧
    (g.play (catRun ++ [finishing])).status = .finished ∧
    ((g.play catRun).handle finishing).out.head? = some o ∧
    o.finalBoards.bind (·.get? "ann") =
      some [⟨⟨1, 'C'⟩, 4, 7⟩, ⟨⟨2, 'A'⟩, 5, 7⟩, ⟨⟨3, 'T'⟩, 6, 7⟩] ∧
    (g.play (catRun ++ [finishing, regridding ⟨1, 1⟩])).status = .finished ∧
    ((g.play (catRun ++ [finishing, regridding ⟨1, 1⟩])).board? "ann").map (·.placed) = some [] := by
  have h : setUp 1 { letters := "CATDOG", handSize := 3 } .standard .standard ⟨["CAT"]⟩ 0 =
    .ok _ := rfl
  exact ⟨_, _, h, rfl, rfl, rfl, rfl, rfl⟩

end TileRace.Game
