import TileRace.Proofs.Game.Progress
import TileRace.Proofs.Game.Victory

namespace TileRace

/-- A game starts once, and ends once. -/
inductive Status.Next : Status → Status → Prop where
  | stay (s) : Next s s
  | start : Next .notStarted .inProgress
  | finish {s} (h : s.isFinished) : Next .inProgress s

namespace Game

variable {g g' g'' : Game} {m : Message} {name : String} {seat : Seat} {t : Turn}

/-- What a step changes of the course of a game, and what it awards. -/
structure Advances (g : Game) (m : Message) (t : Turn) : Prop where
  status : g.status.Next t.game.status
  players : g.players ⊆ t.game.players
  closed : t.game.players ≠ g.players → g.status = .notStarted
  award : t.award.isSome ↔ g.status = .inProgress ∧ t.game.status ≠ .inProgress
  shares : ∀ a, t.award = some a → ∃ winner seat,
    m.player = some winner ∧ g.seats.get? winner = some seat ∧ a.keys = g.players ∧
    ∀ x s, g.seats.get? x = some s → a.get? x = some (if x = winner then seat.prize else 1)

theorem players_insert (seats : Table String Seat) (name : String) (seat : Seat) :
    seats.keys ⊆ (seats.insert name seat).keys := by
  intro x hx
  obtain ⟨s, hs⟩ := Table.mem_keys.1 hx
  rw [Table.mem_keys, Table.get?_insert]
  split
  · exact ⟨seat, rfl⟩
  · exact ⟨s, hs⟩

theorem get?_award (hs : g.seats.get? name = some seat) {x : String} {s : Seat}
    (hx : g.seats.get? x = some s) :
    (g.award name).get? x = some (if x = name then seat.prize else 1) := by
  rw [award, Table.get?_map, hx, Option.map_some]
  split
  · rename_i he
    rw [he, hs] at hx
    rw [Option.some.inj hx]
  · rfl

theorem Progress.advances (h : g.Progress m t) : g.Advances m t := by
  cases h with
  | none redealt award quiet =>
    refine ⟨redealt.status ▸ .stay _, redealt.players ▸ List.Subset.refl _,
      fun hne => (hne redealt.players).elim, ?_, ?_⟩
    · rw [award, redealt.status]
      exact ⟨fun ha => (by cases ha), fun hs => (hs.2 hs.1).elim⟩
    · intro a ha
      cases award.symm.trans ha
  | joined now absent room coherent game award news =>
    have hseats : t.game.seats = _ := congrArg Game.seats game
    have hstatus : t.game.status = _ := congrArg Game.status game
    refine ⟨hstatus ▸ .stay _, ?_, fun _ => now, ?_, ?_⟩
    · rw [Game.players, Game.players, hseats]
      exact players_insert _ _ _
    · rw [award, hstatus]
      exact ⟨fun ha => (by cases ha), fun hs => (hs.2 hs.1).elim⟩
    · intro a ha
      cases award.symm.trans ha
  | started now game award news =>
    refine ⟨?_, ?_, fun _ => now, ?_, ?_⟩
    · rw [game, now]
      exact .start
    · rw [game]
      exact List.Subset.refl _
    · rw [award, now]
      exact ⟨fun ha => (by cases ha), fun hs => by cases hs.1⟩
    · intro a ha
      cases award.symm.trans ha
  | @won x s wanted asks now next pool game award news =>
    have hne : wanted.status ≠ .inProgress := by
      intro he
      rw [he] at next
      cases next
    refine ⟨?_, ?_, ?_, ?_, ?_⟩
    · rw [game, now]
      exact .finish next
    · rw [game]
      exact List.Subset.refl _
    · rw [game]
      exact fun h => (h rfl).elim
    · rw [award, game]
      exact ⟨fun _ => ⟨now, hne⟩, fun _ => rfl⟩
    · intro a ha
      obtain rfl := Option.some.inj (award.symm.trans ha)
      exact ⟨x, s, asks.player, asks.seat, Table.keys_map _ _, fun _ _ => get?_award asks.seat⟩

/-- Two states of a game in which everybody owns the same tiles and has the same prize. -/
structure Settled (g g' : Game) : Prop where
  status : g'.status = g.status
  pool : g'.pool = g.pool
  players : g'.players = g.players
  seats : ∀ {name seat}, g.seats.get? name = some seat → ∃ seat',
    g'.seats.get? name = some seat' ∧ seat'.prize = seat.prize ∧
    seat'.board.tiles.Perm seat.board.tiles

theorem Settled.refl (g : Game) : g.Settled g := ⟨rfl, rfl, rfl, fun h => ⟨_, h, rfl, .refl _⟩⟩

theorem Settled.trans (h : g.Settled g') (h' : g'.Settled g'') : g.Settled g'' where
  status := h'.status.trans h.status
  pool := h'.pool.trans h.pool
  players := h'.players.trans h.players
  seats hs := by
    obtain ⟨s', hs', hprize, htiles⟩ := h.seats hs
    obtain ⟨s'', hs'', hprize', htiles'⟩ := h'.seats hs'
    exact ⟨s'', hs'', hprize'.trans hprize, htiles'.trans htiles⟩

theorem settled_setBoard (hs : g.seats.get? name = some seat) {b : Board}
    (hb : b.tiles.Perm seat.board.tiles) : g.Settled (g.setBoard name b) where
  status := rfl
  pool := rfl
  players := g.players_setBoard name b
  seats {x s} hx := by
    rw [get?_setBoard, hx]
    split
    · rename_i he
      rw [he, hs] at hx
      obtain rfl := Option.some.inj hx
      exact ⟨_, rfl, rfl, hb⟩
    · exact ⟨s, rfl, rfl, .refl _⟩

theorem Accepted.settled (hg : g.Orderly) (hf : g.status.isFinished) (h : g.Accepted m t) :
    g.Settled t.game := by
  have hnot {s : Status} (hs : g.status = s) : s.isFinished := hs ▸ hf
  cases h with
  | returned | deleted | chatted | refreshed => exact .refl g
  | joined kind player absent status => cases hnot status
  | started asks game now => cases hnot now
  | won asks game now => cases hnot now
  | snagged asks now => cases hnot now
  | swapped asks now => cases hnot now
  | moved asks now batch move => exact settled_setBoard asks.seat ((hg _ _ asks.seat).move_perm move)
  | resized asks => exact settled_setBoard asks.seat ((hg _ _ asks.seat).resize_perm _)

theorem Orderly.settled_handle (hg : g.Orderly) (hf : g.status.isFinished) (m : Message) :
    g.Settled (g.handle m).game := by
  rw [handle]
  split
  · rename_i h
    exact (respond_ok h).settled hg hf
  · rename_i r h
    obtain hr | hr := stopped_of_error h
    · exact (hr ▸ .refl g : g.Settled r.game)
    · exact (hr.1 hf).elim

/-- What holds of a game all along: the boards are in order, there are not too many players, and
no tile is left to draw when the game is over. -/
structure Ordered (g : Game) : Prop where
  orderly : g.Orderly
  room : g.players.length ≤ g.settings.maxPlayers.toNat
  pool : g.status.isFinished → g.pool = []

theorem length_keys_insert {seats : Table String Seat} (h : seats.get? name = none) (seat : Seat) :
    (seats.insert name seat).keys.length = seats.size + 1 := by
  have hv := (Table.values_insert_perm seats name seat).length_eq
  rw [Table.erase_of_get?_eq_none h, List.length_cons] at hv
  simpa [Table.keys, Table.values, Table.size] using hv

theorem Progress.settings (h : g.Progress m t) : t.game.settings = g.settings := by
  cases h with
  | none redealt => exact redealt.settings
  | joined now absent room coherent game => rw [game]
  | started now game => rw [game]
  | won asks now next pool game => rw [game]

theorem Progress.rules (h : g.Progress m t) : t.game.rules = g.rules := by
  cases h with
  | none redealt => rw [redealt.frame]
  | joined now absent room coherent game => rw [game]
  | started now game => rw [game]
  | won asks now next pool game => rw [game]

theorem Progress.orderly (h : g.Progress m t) (hg : g.Orderly) : t.game.Orderly := by
  cases h with
  | none redealt => exact redealt.orderly hg
  | started now game => rw [game]; exact hg
  | won asks now next pool game => rw [game]; exact hg
  | @joined x s now absent room coherent game =>
    rw [game]
    intro y u hy
    have hy := (Table.get?_insert _ _ _ _).symm.trans hy
    split at hy
    · exact Option.some.inj hy ▸ coherent
    · exact hg _ _ hy

theorem Progress.length_players (h : g.Progress m t)
    (hg : g.players.length ≤ g.settings.maxPlayers.toNat) :
    t.game.players.length ≤ g.settings.maxPlayers.toNat := by
  cases h with
  | none redealt => rwa [redealt.players]
  | started now game => rwa [game]
  | won asks now next pool game => rwa [game]
  | joined now absent room coherent game =>
    rw [game]
    exact Nat.le_trans (Nat.le_of_eq (length_keys_insert absent _)) room

theorem Ordered.handle (hg : g.Ordered) (m : Message) : (g.handle m).game.Ordered where
  orderly := (g.progress m).orderly hg.orderly
  room := by
    rw [(g.progress m).settings]
    exact (g.progress m).length_players hg.room
  pool hf := by
    by_cases hnow : g.status.isFinished
    · rw [(hg.orderly.settled_handle hnow m).pool, hg.pool hnow]
    · cases g.progress m with
      | none redealt => exact (hnow (redealt.status ▸ hf)).elim
      | joined now absent room coherent game =>
        rw [game] at hf
        exact (hnow hf).elim
      | started now game =>
        rw [game] at hf
        cases hf
      | won asks now next pool game => rwa [game]

theorem Ordered.setUp {id : GameId} {settings : Settings} {rules : Rules} {grid : Grid}
    {words : Dictionary} {createdAt : UInt64}
    (h : Game.setUp id settings rules grid words createdAt = .ok g) : g.Ordered := by
  obtain rfl := setUp_eq_ok h
  exact ⟨nofun, Nat.zero_le _, nofun⟩

theorem Ordered.play (hg : g.Ordered) (ms : List Message) : (g.play ms).Ordered := by
  induction ms generalizing g with
  | nil => exact hg
  | cons m ms ih => exact ih (hg.handle m)

theorem settings_play (g : Game) (ms : List Message) : (g.play ms).settings = g.settings := by
  induction ms generalizing g with
  | nil => rfl
  | cons m ms ih => exact (ih _).trans (g.progress m).settings

theorem rules_play (g : Game) (ms : List Message) : (g.play ms).rules = g.rules := by
  induction ms generalizing g with
  | nil => rfl
  | cons m ms ih => exact (ih _).trans (g.progress m).rules

theorem Ordered.settled_play (hg : g.Ordered) (hf : g.status.isFinished) (ms : List Message) :
    g.Settled (g.play ms) := by
  induction ms generalizing g with
  | nil => exact .refl g
  | cons m ms ih =>
    have hstep := hg.orderly.settled_handle hf m
    exact hstep.trans (ih (hg.handle m) (by rwa [hstep.status]))

theorem play_append (g : Game) (ms ms' : List Message) :
    g.play (ms ++ ms') = (g.play ms).play ms' :=
  List.foldl_append ..

def awards (g : Game) : List Message → List Award
  | [] => []
  | m :: ms => (g.handle m).award.toList ++ (g.handle m).game.awards ms

def sends (g : Game) : List Message → List Message
  | [] => []
  | m :: ms => (g.handle m).out ++ (g.handle m).game.sends ms

theorem length_awards (g : Game) (ms : List Message) :
    (g.awards ms).length + (if g.status.isFinished then 1 else 0) =
      if (g.play ms).status.isFinished then 1 else 0 := by
  induction ms generalizing g with
  | nil => exact Nat.zero_add _
  | cons m ms ih =>
    have hstep : (g.handle m).award.toList.length + (if g.status.isFinished then 1 else 0) =
        if (g.handle m).game.status.isFinished then 1 else 0 := by
      cases g.progress m with
      | none redealt award => rw [award, redealt.status]; exact Nat.zero_add _
      | joined now absent room coherent game award => rw [award, game]; exact Nat.zero_add _
      | started now game award => rw [award, game, now]; rfl
      | won asks now next pool game award => rw [award, game, now, if_pos next]; rfl
    -- the awards of the first step and of the rest add up, and so do the two ends
    have hrest := ih (g.handle m).game
    change ((g.handle m).award.toList ++ _).length + _ = _
    rw [List.length_append]
    change _ = if ((g.handle m).game.play ms).status.isFinished then 1 else 0
    omega

section Store

variable {σ ε : Type}

def credited (store : σ → Award → Except ε σ) (x : σ) (a : Award) : σ :=
  match store x a with
  | .ok y => y
  | .error _ => x

/-- A run of a game beside a store of points: the game, what it sent, and the store after it. -/
def playBeside (store : σ → Award → Except ε σ) (x : σ) (g : Game) :
    List Message → Game × List Message × σ
  | [] => (g, [], x)
  | m :: ms =>
    let t := g.handle m
    let (last, out, y) := playBeside store (t.award.toList.foldl (credited store) x) t.game ms
    (last, t.out ++ out, y)

theorem playBeside_eq (store : σ → Award → Except ε σ) (x : σ) (g : Game) (ms : List Message) :
    playBeside store x g ms = (g.play ms, g.sends ms, (g.awards ms).foldl (credited store) x) := by
  induction ms generalizing g x with
  | nil => rfl
  | cons m ms ih =>
    rw [playBeside, ih, awards, List.foldl_append]
    rfl

end Store

/-- A game starts once and ends once, its end is awarded once, and after that it is settled. -/
theorem lifecycle {id : GameId} {settings : Settings} {rules : Rules} {grid : Grid}
    {words : Dictionary} {createdAt : UInt64}
    (h : setUp id settings rules grid words createdAt = .ok g) (ms : List Message) :
    (g.status = .notStarted ∧ g.players = []) ∧
    (∀ m, (g.play ms).Advances m ((g.play ms).handle m)) ∧
    (g.play ms).players.length ≤ settings.maxPlayers.toNat ∧
    (g.awards ms).length = (if (g.play ms).status.isFinished then 1 else 0) ∧
    (∀ {σ ε : Type} (store : σ → Award → Except ε σ) (x : σ), playBeside store x g ms =
      (g.play ms, g.sends ms, (g.awards ms).foldl (credited store) x)) ∧
    ((g.play ms).status.isFinished → (g.play ms).pool = [] ∧
      ∀ ms', (g.play ms).Settled (g.play (ms ++ ms'))) := by
  have hg : g.Ordered := .setUp h
  have hnew : g.status = .notStarted ∧ g.players = [] ∧ g.settings = settings := by
    obtain rfl := setUp_eq_ok h
    exact ⟨rfl, rfl, rfl⟩
  obtain ⟨hstatus, hplayers, hsettings⟩ := hnew
  refine ⟨⟨hstatus, hplayers⟩, fun m => (progress _ m).advances, ?_, ?_, fun store x =>
    playBeside_eq store x g ms, fun hf => ⟨(hg.play ms).pool hf, fun ms' => ?_⟩⟩
  · have hroom := (hg.play ms).room
    rwa [settings_play, hsettings] at hroom
  · have hawards := g.length_awards ms
    rwa [hstatus] at hawards
  · rw [play_append]
    exact (hg.play ms).settled_play hf ms'

theorem lifecycle_catRun : ∃ g,
    setUp 1 { letters := "CATDOG", handSize := 3 } .standard .standard ⟨["CAT"]⟩ 0 = .ok g ∧
    (g.play (catRun ++ [finishing])).status = .finished ∧
    (g.awards (catRun ++ [finishing])).length = 1 ∧
    ∀ ms', (g.play (catRun ++ [finishing])).Settled
      (g.play (catRun ++ [finishing] ++ ms')) := by
  have h : setUp 1 { letters := "CATDOG", handSize := 3 } .standard .standard ⟨["CAT"]⟩ 0 =
    .ok _ := rfl
  obtain ⟨-, -, -, hawards, -, hover⟩ := lifecycle h (catRun ++ [finishing])
  exact ⟨_, h, rfl, hawards, (hover rfl).2⟩

end Game

end TileRace
