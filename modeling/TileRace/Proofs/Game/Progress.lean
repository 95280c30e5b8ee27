import TileRace.Proofs.Game.Messages
import TileRace.Proofs.Game.Rejected

namespace TileRace.Game

def Orderly (g : Game) : Prop := ∀ name seat, g.seats.get? name = some seat → seat.board.Coherent

/-- `g'` is `g` after some dealing: the same players, at the same stage of a game on the same
terms, and their boards in order if they were so before. -/
structure Redealt (g g' : Game) : Prop where
  frame : g' = { g with seats := g'.seats, pool := g'.pool, shuffler := g'.shuffler }
  players : g'.players = g.players
  orderly : g.Orderly → g'.Orderly

variable {g g' : Game} {m o : Message} {name : String} {seat : Seat} {b : Board} {t : Turn}
  {r : Rejection}

theorem Redealt.refl (g : Game) : g.Redealt g := ⟨rfl, rfl, fun hg => hg⟩

theorem Redealt.trans {g'' : Game} (h : g.Redealt g') (h' : g'.Redealt g'') : g.Redealt g'' where
  frame := by rw [h'.frame, h.frame]
  players := h'.players.trans h.players
  orderly := h'.orderly ∘ h.orderly

theorem Redealt.id (h : g.Redealt g') : g'.id = g.id := by rw [h.frame]

theorem Redealt.status (h : g.Redealt g') : g'.status = g.status := by rw [h.frame]

theorem Redealt.settings (h : g.Redealt g') : g'.settings = g.settings := by rw [h.frame]

theorem Redealt.summary (h : g.Redealt g') : g'.summary = g.summary := by
  rw [Game.summary, h.players, h.frame, Game.summary]

theorem redealt_penalized (g : Game) (name : String) : g.Redealt (g.penalized name) where
  frame := by
    rw [penalized]
    split <;> rfl
  players := g.players_penalized name
  orderly hg x s hs := by
    rw [get?_penalized] at hs
    split at hs
    · obtain ⟨s', hs', rfl⟩ := Option.map_eq_some_iff.1 hs
      exact hg _ s' hs'
    · exact hg _ _ hs

def prize? (g : Game) (name : String) : Option UInt32 := (g.seats.get? name).map (·.prize)

/-- `g'` is `g` after some dealing that has cost nobody a point. -/
structure Costless (g g' : Game) : Prop extends Redealt g g' where
  prizes : ∀ x, g'.prize? x = g.prize? x

theorem Costless.refl (g : Game) : g.Costless g := ⟨.refl g, fun _ => rfl⟩

theorem Costless.trans {g'' : Game} (h : g.Costless g') (h' : g'.Costless g'') : g.Costless g'' :=
  ⟨h.toRedealt.trans h'.toRedealt, fun x => (h'.prizes x).trans (h.prizes x)⟩

theorem costless_pool (g : Game) (pool : List Tile) (shuffler : Shuffler) :
    g.Costless { g with pool := pool, shuffler := shuffler } :=
  ⟨⟨rfl, rfl, fun hg => hg⟩, fun _ => rfl⟩

theorem prize?_setBoard (g : Game) (name : String) (b : Board) (x : String) :
    (g.setBoard name b).prize? x = g.prize? x := by
  rw [prize?, get?_setBoard]
  split
  · rw [Option.map_map]
    rfl
  · rfl

theorem costless_setBoard (hb : g.Orderly → b.Coherent) : g.Costless (g.setBoard name b) where
  frame := rfl
  players := g.players_setBoard name b
  orderly hg x s hs := by
    rw [get?_setBoard] at hs
    split at hs
    · obtain ⟨s', -, rfl⟩ := Option.map_eq_some_iff.1 hs
      exact hb hg
    · exact hg _ _ hs
  prizes := g.prize?_setBoard name b

theorem costless_give {ts : List Tile} (hb : g.Orderly → b.Coherent) :
    (∀ g', g.give name b ts = .ok g' → g.Costless g') ∧
    (∀ r, g.give name b ts = .error r → g.Costless r.game) := by
  induction ts generalizing b with
  | nil =>
    rw [give]
    refine ⟨fun g' h => ?_, fun r h => (by cases h)⟩
    obtain rfl := Except.ok.inj h
    exact costless_setBoard hb
  | cons t ts ih =>
    cases hadd : b.add t with
    | error e =>
      rw [give, hadd]
      refine ⟨fun g' h => (by cases h), fun r h => ?_⟩
      obtain rfl := Except.error.inj h
      exact costless_setBoard hb
    | ok c =>
      rw [give, hadd]
      exact ih fun hg => (hb hg).of_add hadd

theorem costless_deal {names : List String} :
    (∀ x, g.deal names = .ok x → g.Costless x.1) ∧
    (∀ r, g.deal names = .error r → g.Costless r.game) := by
  induction names generalizing g with
  | nil =>
    rw [deal]
    refine ⟨fun x h => ?_, fun r h => (by cases h)⟩
    obtain rfl := Except.ok.inj h
    exact .refl g
  | cons n names ih =>
    cases hpool : g.pool with
    | nil =>
      rw [deal, hpool]
      refine ⟨fun x h => ?_, fun r h => (by cases h)⟩
      obtain rfl := Except.ok.inj h
      exact .refl g
    | cons tile pool =>
      have hpopped := costless_pool g pool g.shuffler
      rw [deal, hpool]
      cases hs : g.seats.get? n with
      | none =>
        simp only [hs, bind_eq_ok, bind_eq_error, pure_eq_ok]
        refine ⟨fun x h => ?_, fun r h => ?_⟩
        · obtain ⟨g', hg', y, hy, rfl⟩ := h
          obtain rfl := Except.ok.inj hg'
          exact hpopped.trans (ih.1 y hy)
        · obtain h | ⟨g', hg', h | ⟨_, -, h⟩⟩ := h
          · cases h
          · obtain rfl := Except.ok.inj hg'
            exact hpopped.trans (ih.2 r h)
          · cases h
      | some seat =>
        simp only [hs, bind_eq_ok, bind_eq_error, pure_eq_ok]
        have hgive : (∀ g', Game.give { g with pool } n seat.board [tile] = .ok g' →
              Costless { g with pool } g') ∧
            (∀ r, Game.give { g with pool } n seat.board [tile] = .error r →
              Costless { g with pool } r.game) :=
          costless_give fun hg => hg _ _ hs
        refine ⟨fun x h => ?_, fun r h => ?_⟩
        · obtain ⟨g', hg', y, hy, rfl⟩ := h
          exact (hpopped.trans (hgive.1 g' hg')).trans (ih.1 y hy)
        · obtain h | ⟨g', hg', h | ⟨_, -, h⟩⟩ := h
          · exact hpopped.trans (hgive.2 r h)
          · exact (hpopped.trans (hgive.1 g' hg')).trans (ih.2 r h)
          · cases h

theorem costless_snag {names : List String} {shuffler : Shuffler} :
    (∀ x, Game.deal { g with shuffler := shuffler } names = .ok x → g.Costless x.1) ∧
    (∀ r, Game.deal { g with shuffler := shuffler } names = .error r → g.Costless r.game) :=
  ⟨fun x h => (costless_pool g g.pool _).trans (costless_deal.1 x h),
    fun r h => (costless_pool g g.pool _).trans (costless_deal.2 r h)⟩

theorem costless_swap (hs : g.seats.get? name = some seat) {tile : Tile}
    (remove : seat.board.remove tile = .ok b) {pool ts : List Tile} {shuffler : Shuffler} :
    (∀ g', Game.give { g with pool := pool, shuffler := shuffler } name b ts = .ok g' →
      g.Costless g') ∧
    (∀ r, Game.give { g with pool := pool, shuffler := shuffler } name b ts = .error r →
      g.Costless r.game) := by
  have hb : Orderly { g with pool := pool, shuffler := shuffler } → b.Coherent :=
    fun hg => (hg _ _ hs).of_remove remove
  exact ⟨fun g' h => (costless_pool g _ _).trans ((costless_give hb).1 g' h),
    fun r h => (costless_pool g _ _).trans ((costless_give hb).2 r h)⟩

/-- How a request ends that is not carried out: nothing has happened, or some dealing in a game
that is not over. -/
def Stopped (g : Game) (r : Rejection) : Prop :=
  r.game = g ∨ ¬ g.status.isFinished ∧ g.Redealt r.game

theorem Stopped.redealt (h : g.Stopped r) : g.Redealt r.game := by
  obtain h | ⟨-, h⟩ := h
  · exact h ▸ .refl g
  · exact h

theorem Rejected.stopped (h : g.Rejected m r) : g.Stopped r := by
  cases h with
  | unchanged game => exact .inl game
  | failed fails game =>
    exact .inr ⟨by simp [fails.asked.1, Status.isFinished], game ▸ redealt_penalized g _⟩

theorem Jammed.costless (h : g.Jammed m r) : g.Costless r.game := by
  cases h with
  | joining kind now room enough hand game => exact game ▸ costless_pool g _ _
  | snagging asks now check deal => exact costless_snag.2 _ deal
  | swapping asks now remove give => exact (costless_swap asks.seat remove).2 _ give

theorem Jammed.stopped (h : g.Jammed m r) : g.Stopped r := by
  refine .inr ⟨?_, h.costless.toRedealt⟩
  cases h with
  | joining kind now | snagging asks now | swapping asks now => simp [now, Status.isFinished]

theorem stopped_of_error (h : g.respond m = .error r) : g.Stopped r :=
  (respond_error h).elim Rejected.stopped Jammed.stopped

def announced (out : List Message) : List Message := out.filter (·.kind = .gameInfoChanged)

theorem announced_eq_nil {out : List Message} (h : ∀ o ∈ out, o.kind ≠ .gameInfoChanged) :
    announced out = [] :=
  List.filter_eq_nil_iff.2 fun o ho => by simpa using h o ho

theorem announced_append {out out' : List Message} :
    announced (out ++ out') = announced out ++ announced out' :=
  List.filter_append ..

theorem announced_infoChanged {out : List Message} (h : ∀ o ∈ out, o.kind ≠ .gameInfoChanged) :
    announced (out ++ [g.infoChanged]) = [g.infoChanged] := by
  rw [announced_append, announced_eq_nil h]
  rfl

/-- All that a message can do to the course of a game: as a rule nothing. Every change is
announced. -/
inductive Progress (g : Game) (m : Message) (t : Turn) : Prop where
  | none (redealt : g.Redealt t.game) (award : t.award = none) (quiet : announced t.out = [])
  | joined {x : String} {s : Seat} (now : g.status = .notStarted) (absent : g.seats.get? x = none)
    (room : g.seats.size < g.settings.maxPlayers.toNat) (coherent : s.board.Coherent)
    (game : t.game = { g with seats := g.seats.insert x s, pool := t.game.pool })
    (award : t.award = none) (news : announced t.out = [t.game.infoChanged])
  | started (now : g.status = .notStarted) (game : t.game = { g with status := .inProgress })
    (award : t.award = none) (news : announced t.out = [t.game.infoChanged])
  | won {x : String} {s : Seat} {wanted : Summary} (asks : g.Asks m .changeGameStatus x s)
    (now : g.status = .inProgress) (next : wanted.status.isFinished) (pool : g.pool = [])
    (game : t.game = { g with status := wanted.status }) (award : t.award = some (g.award x))
    (news : announced t.out = [t.game.infoChanged])

theorem Accepted.progress (h : g.Accepted m t) : g.Progress m t := by
  cases h with
  | returned | refreshed => exact .none (.refl g) rfl rfl
  | @joined _ b kind player absent status room enough hand =>
    have hb : b.Coherent := Board.foldlM_add_induction (fun hb => hb.of_add) (.empty _) hand
    refine .joined (s := ⟨b, g.settings.prize⟩) status absent room hb rfl rfl ?_
    refine announced_infoChanged fun o ho => ?_
    obtain rfl | ho := List.mem_cons.1 ho
    · simp [boardMessage]
    · obtain ⟨x, -, rfl⟩ := List.mem_map.1 ho
      simp
  | deleted | chatted =>
    refine .none (.refl g) rfl (announced_eq_nil fun o ho => ?_)
    simp only [leaveAll] at ho
    simp [kind_toAll ho fun _ _ => rfl]
  | started asks game now next =>
    refine .started now rfl rfl (announced_infoChanged fun o ho => ?_)
    simp [kind_toAll ho fun _ _ => rfl]
  | won asks game now next pool check =>
    refine .won asks now next pool rfl rfl (announced_infoChanged fun o ho => ?_)
    simp [kind_toAll ho fun _ _ => rfl]
  | snagged asks now pool check deal =>
    refine .none (costless_snag.1 _ deal).toRedealt rfl (announced_eq_nil fun o ho => ?_)
    simp only [Game.snagged] at ho
    simp [kind_toAll ho fun _ _ => rfl]
  | swapped asks now offer pool remove give =>
    refine .none ((costless_swap asks.seat remove).1 _ give).toRedealt rfl ?_
    refine announced_eq_nil fun o ho => ?_
    obtain rfl | ho := List.mem_cons.1 ho
    · simp
    · obtain ⟨x, -, rfl⟩ := List.mem_map.1 ho
      simp
  | moved asks now batch move =>
    exact .none (costless_setBoard fun hg => (hg _ _ asks.seat).move move).toRedealt rfl rfl
  | resized asks wish valid =>
    refine .none (costless_setBoard fun hg => (hg _ _ asks.seat).resize _).toRedealt rfl ?_
    refine announced_eq_nil fun o ho => ?_
    rw [List.mem_singleton.1 ho]
    split <;> simp [boardMessage]

theorem progress (g : Game) (m : Message) : g.Progress m (g.handle m) := by
  rw [handle]
  split
  · rename_i h
    exact (respond_ok h).progress
  · rename_i r h
    refine .none (stopped_of_error h).redealt rfl (announced_eq_nil fun o ho => ?_)
    rw [List.mem_singleton.1 ho]
    rcases r.refusal.kind_cases with hk | hk | hk <;> simp [Message.reply, Message.ofKind, hk]

end TileRace.Game
