import TileRace.Game.Turn

namespace TileRace

section Except

variable {ε ε' α β : Type}

theorem bind_eq_ok {x : Except ε α} {f : α → Except ε β} {b : β} :
    (x >>= f) = .ok b ↔ ∃ a, x = .ok a ∧ f a = .ok b := by
  cases x <;> simp [bind, Except.bind]

theorem bind_eq_error {x : Except ε α} {f : α → Except ε β} {e : ε} :
    (x >>= f) = .error e ↔ x = .error e ∨ ∃ a, x = .ok a ∧ f a = .error e := by
  cases x <;> simp [bind, Except.bind]

theorem mapError_eq_ok {x : Except ε α} {f : ε → ε'} {a : α} :
    x.mapError f = .ok a ↔ x = .ok a := by
  cases x with
  | error e => exact ⟨nofun, nofun⟩
  | ok b => exact ⟨fun h => congrArg _ (Except.ok.inj h), fun h => congrArg _ (Except.ok.inj h)⟩

theorem mapError_eq_error {x : Except ε α} {f : ε → ε'} {e : ε'} :
    x.mapError f = .error e ↔ ∃ e', x = .error e' ∧ f e' = e := by
  cases x with
  | error e' => exact ⟨fun h => ⟨e', rfl, Except.error.inj h⟩, fun ⟨_, h, he⟩ =>
      congrArg _ ((congrArg f (Except.error.inj h)).trans he)⟩
  | ok b => exact ⟨nofun, nofun⟩

theorem pure_eq_ok {a b : α} : (pure a : Except ε α) = .ok b ↔ a = b := by
  simp [pure, Except.pure]

end Except

namespace Game

structure Asks (g : Game) (m : Message) (k : Kind) (name : String) (seat : Seat) : Prop where
  kind : m.kind = k
  player : m.player = some name
  seat : g.seats.get? name = some seat

/-- All that can come of a request that is carried out. -/
inductive Accepted (g : Game) (m : Message) : Turn → Prop where
  | returned {name seat} (asks : g.Asks m .joinGame name seat) :
    Accepted g m { game := g, out := [g.boardMessage .joinGame name seat.board m.socket] }
  | joined {name board} (kind : m.kind = .joinGame) (player : m.player = some name)
    (absent : g.seats.get? name = none) (status : g.status = .notStarted)
    (room : g.seats.size < g.settings.maxPlayers.toNat)
    (enough : g.settings.handSize.toNat ≤ g.pool.length)
    (hand : Board.ofTiles ((m.grid.filter Grid.isValid).getD g.grid)
      (g.pool.take g.settings.handSize.toNat) = .ok board) :
    Accepted g m
      ({ g with pool := g.pool.drop g.settings.handSize.toNat }.joined name board m.socket)
  | deleted {name seat} (asks : g.Asks m .deleteGame name seat) :
    Accepted g m
      { game := g, out := g.leaveAll s!"{name} deleted the game", keep := false }
  | started {name seat wanted} (asks : g.Asks m .changeGameStatus name seat)
    (game : m.game = some wanted) (now : g.status = .notStarted)
    (next : wanted.status = .inProgress) :
    Accepted g m (g.start name)
  | won {name seat wanted} (asks : g.Asks m .changeGameStatus name seat)
    (game : m.game = some wanted) (now : g.status = .inProgress)
    (next : wanted.status.isFinished) (pool : g.pool = [])
    (check : g.rules.check g.words seat.board = .ok ()) :
    Accepted g m (g.won name seat wanted.status)
  | snagged {name seat g' dealt} (asks : g.Asks m .snagGameTile name seat)
    (now : g.status = .inProgress) (pool : g.pool ≠ [])
    (check : g.rules.checkOnSnag → g.rules.check g.words seat.board = .ok ())
    (deal : { g with shuffler := (g.shuffler.shuffle (g.others name)).2 }.deal
      (name :: (g.shuffler.shuffle (g.others name)).1) = .ok (g', dealt)) :
    Accepted g m (g'.snagged name dealt)
  | swapped {name seat tile board g'} (asks : g.Asks m .swapGameTile name seat)
    (now : g.status = .inProgress) (offer : (m.tiles.getD []).head? = some tile)
    (pool : g.pool ≠ []) (remove : seat.board.remove tile = .ok board)
    (give : Game.give
      { g with
        pool := (g.shuffler.shuffle (g.pool ++ [tile])).1.drop swapDraw
        shuffler := (g.shuffler.shuffle (g.pool ++ [tile])).2 }
      name board ((g.shuffler.shuffle (g.pool ++ [tile])).1.take swapDraw) = .ok g') :
    Accepted g m (g'.swapped name tile
      ((g.shuffler.shuffle (g.pool ++ [tile])).1.take swapDraw) m.socket)
  | moved {name seat ps board} (asks : g.Asks m .moveGameTiles name seat)
    (now : g.status = .inProgress ∨ g.status = .finishedAllowMove)
    (batch : m.placements = some ps) (move : seat.board.move ps = .ok board) :
    Accepted g m { game := g.setBoard name board, out := [] }
  | chatted {name seat text} (asks : g.Asks m .gameChat name seat)
    (said : Text.trim (m.info.getD "").toList = text) (nonempty : text ≠ []) :
    Accepted g m
      { game := g
        out := g.toAll .gameChat fun _ n => n.withInfo s!"{name}: {String.ofList text}" }
  | refreshed {name seat} (asks : g.Asks m .refreshGameBoard name seat) (wish : m.grid = none) :
    Accepted g m
      { game := g, out := [g.boardMessage .refreshGameBoard name seat.board m.socket] }
  | resized {name seat grid} (asks : g.Asks m .refreshGameBoard name seat)
    (wish : m.grid = some grid) (valid : grid.isValid) :
    Accepted g m (g.resized name (seat.board.resize grid).1 (seat.board.resize grid).2 m.socket)

variable {g g' : Game} {m : Message} {name : String} {seat : Seat} {t : Turn}

theorem require_eq_ok {c : Prop} [Decidable c] {r : Refusal} {u : Unit} :
    g.require c r = .ok u ↔ c := by
  rw [require]
  split <;> simp_all

theorem sender_eq_ok : g.sender m = .ok name ↔ m.player = some name := by
  rw [sender]
  split <;> simp_all

theorem seated_eq_ok :
    g.seated m = .ok (name, seat) ↔ m.player = some name ∧ g.seats.get? name = some seat := by
  simp only [seated, bind_eq_ok, sender_eq_ok]
  constructor
  · rintro ⟨a, ha, h⟩
    split at h
    · rename_i s hs
      obtain ⟨rfl, rfl⟩ := Prod.mk.inj (pure_eq_ok.1 h)
      exact ⟨ha, hs⟩
    · cases h
  · rintro ⟨hp, hs⟩
    exact ⟨name, hp, by rw [hs]; rfl⟩

theorem checkBoard_eq_ok {b : Board} {u : Unit} :
    g.checkBoard name b = .ok u ↔ g.rules.check g.words b = .ok () := mapError_eq_ok

theorem checkOnSnag_eq_ok {b : Board} {u : Unit} : g.checkOnSnag name b = .ok u ↔
    (g.rules.checkOnSnag → g.rules.check g.words b = .ok ()) := by
  rw [checkOnSnag]
  split
  · rename_i h
    simp [checkBoard_eq_ok, h]
  · rename_i h
    simp [h]

theorem join_ok (hk : m.kind = .joinGame) (h : g.join m = .ok t) : g.Accepted m t := by
  simp only [join, bind_eq_ok, sender_eq_ok] at h
  obtain ⟨name, hp, h⟩ := h
  split at h
  · rename_i seat hs
    obtain rfl := pure_eq_ok.1 h
    exact .returned ⟨hk, hp, hs⟩
  · rename_i hs
    simp only [newcomer, bind_eq_ok, require_eq_ok, mapError_eq_ok, pure_eq_ok] at h
    obtain ⟨_, hnow, _, hroom, _, henough, board, hboard, rfl⟩ := h
    exact .joined hk hp hs hnow hroom henough hboard

theorem delete_ok (hk : m.kind = .deleteGame) (h : g.delete m = .ok t) : g.Accepted m t := by
  simp only [delete, bind_eq_ok, Prod.exists, seated_eq_ok, pure_eq_ok] at h
  obtain ⟨name, seat, ⟨hp, hs⟩, rfl⟩ := h
  exact .deleted ⟨hk, hp, hs⟩

theorem finish_eq_ok {status : Status} : g.finish name seat status = .ok t ↔
    g.pool = [] ∧ g.rules.check g.words seat.board = .ok () ∧ g.won name seat status = t := by
  simp only [finish, bind_eq_ok, require_eq_ok, checkBoard_eq_ok, pure_eq_ok, exists_and_left,
    exists_const]

theorem changeStatus_ok (hk : m.kind = .changeGameStatus) (h : g.changeStatus m = .ok t) :
    g.Accepted m t := by
  simp only [changeStatus, bind_eq_ok, Prod.exists, seated_eq_ok] at h
  obtain ⟨name, seat, ⟨hp, hs⟩, h⟩ := h
  split at h
  · cases h
  · rename_i wanted hw
    split at h
    · rename_i hnow hnext
      obtain rfl := pure_eq_ok.1 h
      exact .started ⟨hk, hp, hs⟩ hw hnow hnext
    · rename_i hnow hnext
      obtain ⟨hpool, hcheck, rfl⟩ := finish_eq_ok.1 h
      exact hnext ▸ .won ⟨hk, hp, hs⟩ hw hnow (hnext ▸ rfl) hpool hcheck
    · rename_i hnow hnext
      obtain ⟨hpool, hcheck, rfl⟩ := finish_eq_ok.1 h
      exact hnext ▸ .won ⟨hk, hp, hs⟩ hw hnow (hnext ▸ rfl) hpool hcheck
    · cases h

theorem snag_ok (hk : m.kind = .snagGameTile) (h : g.snag m = .ok t) : g.Accepted m t := by
  simp only [snag, bind_eq_ok, Prod.exists, seated_eq_ok, requireStatus, require_eq_ok,
    checkOnSnag_eq_ok, pure_eq_ok] at h
  obtain ⟨name, seat, ⟨hp, hs⟩, _, hnow, _, hpool, _, hcheck, g', dealt, hdeal, rfl⟩ := h
  exact .snagged ⟨hk, hp, hs⟩ (List.mem_singleton.1 hnow) hpool hcheck hdeal

theorem swap_ok (hk : m.kind = .swapGameTile) (h : g.swap m = .ok t) : g.Accepted m t := by
  simp only [swap, bind_eq_ok, Prod.exists, seated_eq_ok, requireStatus, require_eq_ok] at h
  obtain ⟨name, seat, ⟨hp, hs⟩, _, hnow, h⟩ := h
  split at h
  · cases h
  · rename_i tile ht
    simp only [bind_eq_ok, require_eq_ok, mapError_eq_ok, pure_eq_ok] at h
    obtain ⟨_, hpool, board, hremove, g', hgive, rfl⟩ := h
    exact .swapped ⟨hk, hp, hs⟩ (List.mem_singleton.1 hnow) ht hpool hremove hgive

theorem move_ok (hk : m.kind = .moveGameTiles) (h : g.move m = .ok t) : g.Accepted m t := by
  simp only [move, bind_eq_ok, Prod.exists, seated_eq_ok, requireStatus, require_eq_ok] at h
  obtain ⟨name, seat, ⟨hp, hs⟩, _, hnow, h⟩ := h
  split at h
  · cases h
  · rename_i ps hps
    simp only [bind_eq_ok, mapError_eq_ok, pure_eq_ok] at h
    obtain ⟨board, hmove, rfl⟩ := h
    exact .moved ⟨hk, hp, hs⟩ (by simpa using hnow) hps hmove

theorem chat_ok (hk : m.kind = .gameChat) (h : g.chat m = .ok t) : g.Accepted m t := by
  simp only [chat, bind_eq_ok, Prod.exists, seated_eq_ok, require_eq_ok, pure_eq_ok] at h
  obtain ⟨name, seat, ⟨hp, hs⟩, _, htext, rfl⟩ := h
  exact .chatted ⟨hk, hp, hs⟩ rfl htext

theorem refresh_ok (hk : m.kind = .refreshGameBoard) (h : g.refresh m = .ok t) :
    g.Accepted m t := by
  simp only [refresh, bind_eq_ok, Prod.exists, seated_eq_ok] at h
  obtain ⟨name, seat, ⟨hp, hs⟩, h⟩ := h
  split at h
  · rename_i hgrid
    obtain rfl := pure_eq_ok.1 h
    exact .refreshed ⟨hk, hp, hs⟩ hgrid
  · rename_i grid hgrid
    simp only [bind_eq_ok, require_eq_ok, pure_eq_ok] at h
    obtain ⟨_, hvalid, rfl⟩ := h
    exact .resized ⟨hk, hp, hs⟩ hgrid hvalid

theorem respond_ok (h : g.respond m = .ok t) : g.Accepted m t := by
  rw [respond] at h
  split at h
  · exact join_ok ‹_› h
  · exact delete_ok ‹_› h
  · exact changeStatus_ok ‹_› h
  · exact snag_ok ‹_› h
  · exact swap_ok ‹_› h
  · exact move_ok ‹_› h
  · exact chat_ok ‹_› h
  · exact refresh_ok ‹_› h
  · cases h

end Game

end TileRace
