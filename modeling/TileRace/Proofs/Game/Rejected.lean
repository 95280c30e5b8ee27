import TileRace.Proofs.Game.Sound

namespace TileRace.Game

def Checks (g : Game) (m : Message) : Prop :=
  g.status = .inProgress ∧
    (m.kind = .snagGameTile ∧ g.pool ≠ [] ∧ g.rules.checkOnSnag ∨
      m.kind = .changeGameStatus ∧ g.pool = [] ∧ ∃ wanted, m.game = some wanted ∧
        wanted.status.isFinished)

/-- The board of the sender is checked and found wanting. -/
structure FailsCheck (g : Game) (m : Message) (name : String) (seat : Seat) : Prop where
  player : m.player = some name
  seated : g.seats.get? name = some seat
  asked : g.Checks m
  fails : g.rules.check g.words seat.board ≠ .ok ()

/-- All that can come of a request that is not carried out. -/
inductive Rejected (g : Game) (m : Message) (r : Rejection) : Prop where
  | unchanged (game : r.game = g) (passed : ∀ name seat, ¬ g.FailsCheck m name seat)
  | failed {name seat} (fails : g.FailsCheck m name seat) (game : r.game = g.penalized name)

/-- A request has passed all checks, and then the tiles do not go into the hands. -/
inductive Jammed (g : Game) (m : Message) (r : Rejection) : Prop where
  | joining {e} (kind : m.kind = .joinGame) (now : g.status = .notStarted)
    (room : g.seats.size < g.settings.maxPlayers.toNat)
    (enough : g.settings.handSize.toNat ≤ g.pool.length)
    (hand : Board.ofTiles ((m.grid.filter Grid.isValid).getD g.grid)
      (g.pool.take g.settings.handSize.toNat) = .error e)
    (game : r.game = { g with pool := g.pool.drop g.settings.handSize.toNat })
  | snagging {name seat} (asks : g.Asks m .snagGameTile name seat) (now : g.status = .inProgress)
    (check : g.rules.checkOnSnag → g.rules.check g.words seat.board = .ok ())
    (deal : Game.deal { g with shuffler := (g.shuffler.shuffle (g.others name)).2 }
      (name :: (g.shuffler.shuffle (g.others name)).1) = .error r)
  | swapping {name seat tile board} (asks : g.Asks m .swapGameTile name seat)
    (now : g.status = .inProgress) (remove : seat.board.remove tile = .ok board)
    (give : Game.give
      { g with
        pool := (g.shuffler.shuffle (g.pool ++ [tile])).1.drop swapDraw
        shuffler := (g.shuffler.shuffle (g.pool ++ [tile])).2 }
      name board ((g.shuffler.shuffle (g.pool ++ [tile])).1.take swapDraw) = .error r)

variable {g : Game} {m : Message} {name : String} {seat : Seat} {t : Turn} {r : Rejection}

theorem Rejected.of_kind (hsnag : m.kind ≠ .snagGameTile) (hstatus : m.kind ≠ .changeGameStatus)
    (h : r.game = g) : g.Rejected m r :=
  .unchanged h fun _ _ hf => hf.asked.2.elim (hsnag ·.1) (hstatus ·.1)

theorem require_eq_error {c : Prop} [Decidable c] {x : Refusal} :
    g.require c x = .error r ↔ ¬ c ∧ r = ⟨x, g⟩ := by
  rw [require]
  split <;> simp_all [eq_comm]

theorem sender_eq_error : g.sender m = .error r ↔ m.player = none ∧ r = ⟨.noSender, g⟩ := by
  rw [sender]
  split <;> simp_all [eq_comm]

theorem seated_eq_error (h : g.seated m = .error r) :
    r.game = g ∧ ∀ name seat, m.player = some name → g.seats.get? name ≠ some seat := by
  simp only [seated, bind_eq_error, sender_eq_error, sender_eq_ok] at h
  obtain ⟨hp, rfl⟩ | ⟨name, hp, h⟩ := h
  · simp [hp]
  · split at h
    · cases h
    · rename_i hs
      cases h
      refine ⟨rfl, fun name' seat hp' => ?_⟩
      rw [hp] at hp'
      cases hp'
      simp [hs]

theorem checkBoard_eq_error {b : Board} : g.checkBoard name b = .error r ↔
    ∃ f, g.rules.check g.words b = .error f ∧ ⟨.failedCheck f, g.penalized name⟩ = r :=
  mapError_eq_error

theorem join_error (hk : m.kind = .joinGame) (h : g.join m = .error r) :
    g.Rejected m r ∨ g.Jammed m r := by
  have kept : r.game = g → g.Rejected m r := .of_kind (by simp [hk]) (by simp [hk])
  simp only [join, bind_eq_error, sender_eq_error] at h
  obtain ⟨-, rfl⟩ | ⟨name, -, h⟩ := h
  · exact .inl (kept rfl)
  · split at h
    · cases h
    · simp only [newcomer, bind_eq_error, require_eq_error, require_eq_ok, mapError_eq_error] at h
      obtain ⟨-, rfl⟩ | ⟨_, hnow, ⟨-, rfl⟩ | ⟨_, hroom, ⟨-, rfl⟩ | ⟨_, henough, h⟩⟩⟩ := h
      · exact .inl (kept rfl)
      · exact .inl (kept rfl)
      · exact .inl (kept rfl)
      obtain ⟨e, he, rfl⟩ | ⟨_, -, h⟩ := h
      · exact .inr (.joining hk hnow hroom henough he rfl)
      · cases h

theorem delete_error (h : g.delete m = .error r) : r.game = g := by
  simp only [delete, bind_eq_error] at h
  obtain h | ⟨_, -, h⟩ := h
  · exact (seated_eq_error h).1
  · cases h

theorem checks_snag (hk : m.kind = .snagGameTile) :
    g.Checks m ↔ g.status = .inProgress ∧ g.pool ≠ [] ∧ g.rules.checkOnSnag := by
  simp [Checks, hk]

theorem checks_changeStatus (hk : m.kind = .changeGameStatus) :
    g.Checks m ↔ g.status = .inProgress ∧ g.pool = [] ∧ ∃ wanted, m.game = some wanted ∧
      wanted.status.isFinished := by
  simp [Checks, hk]

theorem checkBoard_error (hp : m.player = some name) (hs : g.seats.get? name = some seat)
    (hc : g.Checks m) (h : g.checkBoard name seat.board = .error r) : g.Rejected m r := by
  obtain ⟨f, hf, rfl⟩ := checkBoard_eq_error.1 h
  exact .failed ⟨hp, hs, hc, by simp [hf]⟩ rfl

theorem finish_error (hk : m.kind = .changeGameStatus) (hp : m.player = some name)
    (hs : g.seats.get? name = some seat) {wanted : Summary} (hw : m.game = some wanted)
    (hf : wanted.status.isFinished) (hnow : g.status = .inProgress) {status : Status}
    (h : g.finish name seat status = .error r) : g.Rejected m r := by
  simp only [finish, bind_eq_error, require_eq_error, require_eq_ok] at h
  obtain ⟨hpool, rfl⟩ | ⟨_, hpool, h | ⟨_, -, h⟩⟩ := h
  · exact .unchanged rfl fun _ _ hfail => hpool ((checks_changeStatus hk).1 hfail.asked).2.1
  · exact checkBoard_error hp hs ((checks_changeStatus hk).2 ⟨hnow, hpool, wanted, hw, hf⟩) h
  · cases h

theorem changeStatus_error (hk : m.kind = .changeGameStatus) (h : g.changeStatus m = .error r) :
    g.Rejected m r := by
  simp only [changeStatus, bind_eq_error, Prod.exists, seated_eq_ok] at h
  obtain h | ⟨name, seat, ⟨hp, hs⟩, h⟩ := h
  · obtain ⟨hr, hn⟩ := seated_eq_error h
    exact .unchanged hr fun _ _ hf => hn _ _ hf.player hf.seated
  · split at h
    · rename_i hw
      cases h
      refine .unchanged rfl fun _ _ hf => ?_
      obtain ⟨-, -, wanted, hw', -⟩ := (checks_changeStatus hk).1 hf.asked
      rw [hw] at hw'
      cases hw'
    · rename_i wanted hw
      split at h
      · cases h
      · rename_i hnow hnext
        exact finish_error hk hp hs hw (hnext ▸ rfl) hnow h
      · rename_i hnow hnext
        exact finish_error hk hp hs hw (hnext ▸ rfl) hnow h
      · rename_i hstart hfinish hallow
        cases h
        refine .unchanged rfl fun _ _ hf => ?_
        obtain ⟨hnow, -, wanted', hw', hnext⟩ := (checks_changeStatus hk).1 hf.asked
        rw [hw] at hw'
        cases hw'
        cases hst : wanted.status with
        | finished => exact hfinish hnow hst
        | finishedAllowMove => exact hallow hnow hst
        | notStarted | inProgress => simp [hst, Status.isFinished] at hnext

theorem snag_error (hk : m.kind = .snagGameTile) (h : g.snag m = .error r) :
    g.Rejected m r ∨ g.Jammed m r := by
  simp only [snag, bind_eq_error, Prod.exists, seated_eq_ok, requireStatus,
    require_eq_error, require_eq_ok, List.mem_singleton, checkOnSnag_eq_ok] at h
  obtain h | ⟨name, seat, ⟨hp, hs⟩, ⟨hnow, rfl⟩ | ⟨_, hnow, ⟨hpool, rfl⟩ | ⟨_, hpool, h⟩⟩⟩ := h
  · obtain ⟨hr, hn⟩ := seated_eq_error h
    exact .inl (.unchanged hr fun _ _ hf => hn _ _ hf.player hf.seated)
  · exact .inl (.unchanged rfl fun _ _ hf => hnow hf.asked.1)
  · exact .inl (.unchanged rfl fun _ _ hf => hpool ((checks_snag hk).1 hf.asked).2.1)
  · obtain h | ⟨_, hcheck, h | ⟨_, _, -, h⟩⟩ := h
    · rw [checkOnSnag] at h
      split at h
      · rename_i hrule
        exact .inl (checkBoard_error hp hs ((checks_snag hk).2 ⟨hnow, hpool, hrule⟩) h)
      · cases h
    · exact .inr (.snagging ⟨hk, hp, hs⟩ hnow hcheck h)
    · cases h

theorem swap_error (hk : m.kind = .swapGameTile) (h : g.swap m = .error r) :
    g.Rejected m r ∨ g.Jammed m r := by
  have kept : r.game = g → g.Rejected m r := .of_kind (by simp [hk]) (by simp [hk])
  simp only [swap, bind_eq_error, Prod.exists, seated_eq_ok, requireStatus, require_eq_error,
    require_eq_ok, List.mem_singleton] at h
  obtain h | ⟨name, seat, ⟨hp, hs⟩, ⟨-, rfl⟩ | ⟨_, hnow, h⟩⟩ := h
  · exact .inl (kept (seated_eq_error h).1)
  · exact .inl (kept rfl)
  · split at h
    · cases h
      exact .inl (kept rfl)
    · simp only [bind_eq_error, require_eq_error, mapError_eq_error, mapError_eq_ok] at h
      obtain ⟨-, rfl⟩ | ⟨_, -, ⟨e, -, rfl⟩ | ⟨b, hb, h | ⟨_, -, h⟩⟩⟩ := h
      · exact .inl (kept rfl)
      · exact .inl (kept rfl)
      · exact .inr (.swapping ⟨hk, hp, hs⟩ hnow hb h)
      · cases h

theorem move_error (h : g.move m = .error r) : r.game = g := by
  simp only [move, bind_eq_error, requireStatus, require_eq_error] at h
  obtain h | ⟨_, -, ⟨-, rfl⟩ | ⟨_, -, h⟩⟩ := h
  · exact (seated_eq_error h).1
  · rfl
  · split at h
    · cases h
      rfl
    · simp only [bind_eq_error, mapError_eq_error] at h
      obtain ⟨e, -, rfl⟩ | ⟨_, -, h⟩ := h
      · rfl
      · cases h

theorem chat_error (h : g.chat m = .error r) : r.game = g := by
  simp only [chat, bind_eq_error, require_eq_error] at h
  obtain h | ⟨_, -, ⟨-, rfl⟩ | ⟨_, -, h⟩⟩ := h
  · exact (seated_eq_error h).1
  · rfl
  · cases h

theorem refresh_error (h : g.refresh m = .error r) : r.game = g := by
  simp only [refresh, bind_eq_error] at h
  obtain h | ⟨_, -, h⟩ := h
  · exact (seated_eq_error h).1
  · split at h
    · cases h
    · simp only [bind_eq_error, require_eq_error] at h
      obtain ⟨-, rfl⟩ | ⟨_, -, h⟩ := h
      · rfl
      · cases h

theorem respond_error (h : g.respond m = .error r) : g.Rejected m r ∨ g.Jammed m r := by
  have kept (hsnag : m.kind ≠ .snagGameTile) (hstatus : m.kind ≠ .changeGameStatus)
      (h : r.game = g) : g.Rejected m r ∨ g.Jammed m r := .inl (.of_kind hsnag hstatus h)
  rw [respond] at h
  split at h
  · exact join_error ‹_› h
  · rename_i hk
    exact kept (by simp [hk]) (by simp [hk]) (delete_error h)
  · exact .inl (changeStatus_error ‹_› h)
  · exact snag_error ‹_› h
  · exact swap_error ‹_› h
  · rename_i hk
    exact kept (by simp [hk]) (by simp [hk]) (move_error h)
  · rename_i hk
    exact kept (by simp [hk]) (by simp [hk]) (chat_error h)
  · rename_i hk
    exact kept (by simp [hk]) (by simp [hk]) (refresh_error h)
  · cases h
    exact kept ‹_› ‹_› rfl

theorem Sound.not_jammed (hg : g.Sound) : ¬ g.Jammed m r := by
  intro h
  cases h with
  | joining kind now room enough hand =>
    obtain ⟨b, hb, -⟩ := hg.newcomer ((m.grid.filter Grid.isValid).getD g.grid)
      g.settings.handSize.toNat
    cases hb.symm.trans hand
  | snagging asks now check deal =>
    obtain ⟨g', dealt, hdeal, -⟩ := hg.snag asks.seat
    cases hdeal.symm.trans deal
  | swapping asks now remove give =>
    obtain ⟨c, hc, -⟩ := hg.swap asks.seat remove (Shuffler.shuffle_perm _ _) swapDraw
    cases (give_of_foldlM hc).symm.trans give

theorem Sound.rejected (hg : g.Sound) (h : g.respond m = .error r) : g.Rejected m r :=
  (respond_error h).resolve_right hg.not_jammed

theorem Asks.seat_eq {k : Kind} {x : String} {s : Seat} (asks : g.Asks m k x s)
    (hf : g.FailsCheck m name seat) : s = seat := by
  have hn : x = name := Option.some.inj (asks.player.symm.trans hf.player)
  subst hn
  exact Option.some.inj (asks.seat.symm.trans hf.seated)

theorem Accepted.passes (h : g.Accepted m t) : ¬ g.FailsCheck m name seat := by
  intro hf
  have hkind := hf.asked.2
  cases h with
  | won asks game now next pool check => exact hf.fails (asks.seat_eq hf ▸ check)
  | snagged asks now pool check deal =>
    exact hf.fails (asks.seat_eq hf ▸ check ((checks_snag asks.kind).1 hf.asked).2.2)
  | started asks game now next =>
    have hnow := hf.asked.1
    rw [now] at hnow
    cases hnow
  | joined kind => simp [kind] at hkind
  | returned asks | deleted asks | swapped asks | moved asks | chatted asks | refreshed asks
  | resized asks => simp [asks.kind] at hkind

theorem Jammed.passes (h : g.Jammed m r) : ¬ g.FailsCheck m name seat := by
  intro hf
  have hkind := hf.asked.2
  cases h with
  | joining kind => simp [kind] at hkind
  | snagging asks now check =>
    exact hf.fails (asks.seat_eq hf ▸ check ((checks_snag asks.kind).1 hf.asked).2.2)
  | swapping asks => simp [asks.kind] at hkind

theorem penalized_eq (g : Game) (name : String) :
    g.penalized name = { g with seats := (g.penalized name).seats } := by
  rw [penalized]
  split <;> rfl

theorem players_penalized (g : Game) (name : String) : (g.penalized name).players = g.players := by
  rw [penalized]
  split
  · exact Table.keys_modify _ _ _
  · rfl

theorem get?_penalized (g : Game) (name x : String) : (g.penalized name).seats.get? x =
    if g.rules.penalize ∧ x = name then
      (g.seats.get? x).map fun s => { s with prize := lowered s.prize }
    else g.seats.get? x := by
  rw [penalized]
  split
  · rename_i hrule
    simp [Table.get?_modify, hrule]
  · rename_i hrule
    simp [hrule]

theorem Rejected.game_eq (h : g.Rejected m r) : r.game = { g with seats := r.game.seats } := by
  cases h with
  | unchanged game => rw [game]
  | failed fails game => rw [game, ← penalized_eq]

theorem Rejected.board? (h : g.Rejected m r) (x : String) : r.game.board? x = g.board? x := by
  cases h with
  | unchanged game => rw [game]
  | failed fails game =>
    rw [game, Game.board?, Game.board?, get?_penalized]
    split
    · cases g.seats.get? x <;> rfl
    · rfl

theorem Sound.penalized (hg : g.Sound) (hs : g.seats.get? name = some seat) :
    (g.penalized name).Sound := by
  rw [Game.penalized]
  split
  · have hb : seat.board.Coherent := hg.boards hs
    exact hg.modify hs (f := fun s => { s with prize := lowered s.prize }) hb rfl rfl (.refl _)
  · exact hg

theorem Sound.handle (hg : g.Sound) (m : Message) : (g.handle m).game.Sound := by
  rw [Game.handle]
  split
  · rename_i h
    exact hg.accepted (respond_ok h)
  · rename_i h
    change Sound (Rejection.game _)
    cases hg.rejected h with
    | unchanged game => rwa [game]
    | failed fails game =>
      rw [game]
      exact hg.penalized fails.seated

end TileRace.Game
