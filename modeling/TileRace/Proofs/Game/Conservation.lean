import TileRace.Proofs.Game.Rejected

namespace TileRace.Game

def play (g : Game) (ms : List Message) : Game := ms.foldl (fun g m => (g.handle m).game) g

/-- The games that can come about: from a set-up with letters that can all be numbered, through
any messages. -/
inductive Reachable : Game → Prop where
  | setUp {id settings rules grid words createdAt g}
    (letters : (settings.letters.toList.filter Char.isAlpha).length < UInt32.size - 1)
    (h : Game.setUp id settings rules grid words createdAt = .ok g) : Reachable g
  | handle {g} (h : Reachable g) (m : Message) : Reachable (g.handle m).game

variable {g : Game} {m : Message} {t : Turn}

theorem setUp_eq_ok {id : GameId} {settings : Settings} {rules : Rules} {grid : Grid}
    {words : Dictionary} {createdAt : UInt64}
    (h : setUp id settings rules grid words createdAt = .ok g) :
    g = { id, createdAt, status := .notStarted, seats := .empty,
          pool := ((settings.shuffle.shuffler id).shuffle (Tile.ofLetters settings.letters)).1,
          settings, rules, grid, words,
          shuffler :=
            ((settings.shuffle.shuffler id).shuffle (Tile.ofLetters settings.letters)).2 } := by
  simp only [setUp] at h
  split at h
  · cases h
  split at h
  · cases h
  split at h
  · cases h
  split at h
  · cases h
  · exact (Except.ok.inj h).symm

theorem Sound.setUp {id : GameId} {settings : Settings} {rules : Rules} {grid : Grid}
    {words : Dictionary} {createdAt : UInt64}
    (hn : (settings.letters.toList.filter Char.isAlpha).length < UInt32.size - 1)
    (h : Game.setUp id settings rules grid words createdAt = .ok g) : g.Sound := by
  obtain rfl := setUp_eq_ok h
  refine ⟨fun hs => ?_, ?_, ?_⟩
  · cases hs
  · change (_ ++ []).Perm _
    rw [List.append_nil]
    exact Shuffler.shuffle_perm _ _
  · rwa [Tile.ofLetters, Tile.length_number, List.length_map]

theorem Reachable.sound (h : g.Reachable) : g.Sound := by
  induction h with
  | setUp letters h => exact .setUp letters h
  | handle h m ih => exact ih.handle m

theorem Sound.play (hg : g.Sound) (ms : List Message) : (g.play ms).Sound := by
  induction ms generalizing g with
  | nil => exact hg
  | cons m ms ih => exact ih (hg.handle m)

theorem Reachable.play (h : g.Reachable) (ms : List Message) : (g.play ms).Reachable := by
  induction ms generalizing g with
  | nil => exact h
  | cons m ms ih => exact ih (h.handle m)

theorem Sound.frame_accepted (hg : g.Sound) (h : g.Accepted m t) :
    t.game = { g with
      status := t.game.status, seats := t.game.seats, pool := t.game.pool
      shuffler := t.game.shuffler } := by
  cases h with
  | snagged asks now pool check deal =>
    obtain ⟨-, hD⟩ := hg.of_deal asks.seat deal
    rw [snagged, hD.rest]
  | swapped asks now offer pool remove give =>
    obtain ⟨c, -, -, -, rfl⟩ := hg.of_give asks.seat remove (Shuffler.shuffle_perm _ _) give
    rfl
  | _ => rfl

theorem Sound.settings_handle (hg : g.Sound) (m : Message) :
    (g.handle m).game.settings = g.settings := by
  rw [Game.handle]
  split
  · rename_i h
    rw [hg.frame_accepted (respond_ok h)]
  · rename_i h
    change (Rejection.game _).settings = _
    rw [(hg.rejected h).game_eq]

theorem Sound.settings_play (hg : g.Sound) (ms : List Message) :
    (g.play ms).settings = g.settings := by
  induction ms generalizing g with
  | nil => rfl
  | cons m ms ih => exact (ih (hg.handle m)).trans (hg.settings_handle m)

/-- No tile is ever lost, doubled or changed. -/
theorem tiles_conserved {id : GameId} {settings : Settings} {rules : Rules} {grid : Grid}
    {words : Dictionary} {createdAt : UInt64}
    (hn : (settings.letters.toList.filter Char.isAlpha).length < UInt32.size - 1)
    (h : setUp id settings rules grid words createdAt = .ok g) (ms : List Message) :
    (g.play ms).tiles.Perm (Tile.ofLetters settings.letters) ∧
      ((g.play ms).tiles.map (·.id)).Nodup := by
  have hg : g.Sound := .setUp hn h
  have hset : (g.play ms).settings = settings := by
    rw [hg.settings_play, setUp_eq_ok h]
  exact ⟨hset ▸ (hg.play ms).tiles_perm, (hg.play ms).ids_nodup⟩

def opening : List Message :=
  [{ kind := .joinGame, player := some "ann" }, { kind := .joinGame, player := some "bob" },
   { kind := .changeGameStatus, player := some "ann", game := some ⟨1, .inProgress, [], 0, 0⟩ }]

def finishing : Message :=
  { kind := .changeGameStatus, player := some "ann", game := some ⟨1, .finished, [], 0, 0⟩ }

def swapRun : List Message :=
  opening ++ [{ kind := .swapGameTile, player := some "ann", tiles := some [⟨1, 'C'⟩] }]

theorem tiles_conserved_swapRun : ∃ g,
    ("CATDOGS".toList.filter Char.isAlpha).length < UInt32.size - 1 ∧
    setUp 1 { letters := "CATDOGS", handSize := 2 } .standard .standard ⟨["CAT"]⟩ 0 = .ok g ∧
    (g.play swapRun).tiles.Perm (Tile.ofLetters "CATDOGS") ∧
    ((g.play swapRun).tiles.map (·.id)).Nodup := by
  have hn : ("CATDOGS".toList.filter Char.isAlpha).length < UInt32.size - 1 := by decide
  have h : setUp 1 { letters := "CATDOGS", handSize := 2 } .standard .standard ⟨["CAT"]⟩ 0 =
    .ok _ := rfl
  exact ⟨_, hn, h, tiles_conserved hn h swapRun⟩

end TileRace.Game
