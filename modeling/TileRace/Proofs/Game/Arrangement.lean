import TileRace.Proofs.Game.Disclosure
import TileRace.Proofs.Game.Rearranged

namespace TileRace.Game

variable {p : String} {g g' : Game} {m m' o : Message} {name x : String} {seat : Seat}
  {b b' : Board} {t t' : Turn} {out out' : List Message}

theorem Rearranged.reject (h : g.Rearranged p g') (r : Refusal) :
    Rejection.Rearranged p ⟨r, g⟩ ⟨r, g'⟩ :=
  ⟨rfl, h⟩

theorem Rearranged.require (h : g.Rearranged p g') {c c' : Prop} [Decidable c] [Decidable c']
    (hc : c' ↔ c) {r r' : Refusal} (hr : r' = r) :
    Matches (Rejection.Rearranged p) (fun _ _ => c) (g.require c r) (g'.require c' r') := by
  subst hr
  rw [Game.require, Game.require]
  by_cases h' : c
  · rw [if_pos h', if_pos (hc.2 h')]
    exact .ok h'
  · rw [if_neg h', if_neg (mt hc.1 h')]
    exact .error (h.reject _)

theorem Rearranged.sender (h : g.Rearranged p g') (hm : m'.player = m.player) :
    Matches (Rejection.Rearranged p) (fun a a' => a' = a ∧ m.player = some a)
      (g.sender m) (g'.sender m') := by
  rw [Game.sender, Game.sender, hm]
  split
  · exact .ok ⟨rfl, ‹_›⟩
  · exact .error (h.reject _)

structure SeatedAlike (p : String) (g : Game) (m : Message) (a a' : String × Seat) : Prop where
  name : a'.1 = a.1
  player : m.player = some a.1
  seated : g.seats.get? a.1 = some a.2
  seat : a.2.Rearranged (a.1 = p) a'.2

theorem SeatedAlike.same {a a' : String × Seat} (h : SeatedAlike p g m a a')
    (hp : m.player ≠ some p) : a' = a :=
  Prod.ext h.name (h.seat.same fun he => hp (he ▸ h.player))

theorem Rearranged.seated (h : g.Rearranged p g') (m : Message) :
    Matches (Rejection.Rearranged p) (SeatedAlike p g m) (g.seated m) (g'.seated m) := by
  rw [Game.seated, Game.seated]
  refine (h.sender rfl).bind fun a a' ha => ?_
  obtain ⟨rfl, hp⟩ := ha
  obtain ⟨hs, hs'⟩ | ⟨s, s', hs, hs', hr⟩ := h.seat_cases a'
  · rw [hs, hs']
    exact .error (h.reject _)
  · rw [hs, hs']
    exact .ok ⟨rfl, hp, hs, hr⟩

theorem Rearranged.requireStatus (h : g.Rearranged p g') (allowed : List Status) :
    Matches (Rejection.Rearranged p) (fun _ _ => g.status ∈ allowed)
      (g.requireStatus allowed) (g'.requireStatus allowed) :=
  h.require (by rw [h.status]) (by rw [h.status])

theorem Rearranged.checkBoard (h : g.Rearranged p g') (name : String) (b : Board) :
    Matches (Rejection.Rearranged p) (fun _ _ => g.rules.check g.words b = .ok ())
      (g.checkBoard name b) (g'.checkBoard name b) := by
  rw [Game.checkBoard, Game.checkBoard, h.rules, h.words]
  refine (Matches.refl_error _).mapError fun f f' hf => ?_
  subst hf
  exact ⟨rfl, h.penalized name⟩

theorem Rearranged.give (h : g.Rearranged p g') (hb : b.Rearranged (name = p) b')
    (ts : List Tile) :
    Matches (Rejection.Rearranged p) (Rearranged p) (g.give name b ts) (g'.give name b' ts) := by
  induction ts generalizing b b' with
  | nil => exact .ok (h.setBoard hb)
  | cons t ts ih =>
    rw [Game.give, Game.give]
    have hadd := hb.add t
    generalize b.add t = c, b'.add t = c' at hadd ⊢
    cases hadd with
    | error he => exact .error ⟨congrArg Refusal.board he.symm, h.setBoard hb⟩
    | ok hc => exact ih hc

theorem Rearranged.dealOne (h : g.Rearranged p g') (name : String) (tile : Tile) :
    Matches (Rejection.Rearranged p) (Rearranged p) (g.dealOne name tile)
      (g'.dealOne name tile) := by
  rw [Game.dealOne, Game.dealOne]
  obtain ⟨hs, hs'⟩ | ⟨s, s', hs, hs', hr⟩ := h.seat_cases name
  · rw [hs, hs']
    exact .ok h
  · rw [hs, hs']
    exact h.give hr.board [tile]

theorem Rearranged.deal (h : g.Rearranged p g') (names : List String) :
    Matches (Rejection.Rearranged p) (fun a a' => a.1.Rearranged p a'.1 ∧ a'.2 = a.2)
      (g.deal names) (g'.deal names) := by
  induction names generalizing g g' with
  | nil => exact .ok ⟨h, rfl⟩
  | cons n names ih =>
    cases hpool : g.pool with
    | nil =>
      rw [deal_nil hpool, deal_nil (h.pool.trans hpool)]
      exact .ok ⟨h, rfl⟩
    | cons tile pool =>
      rw [deal_cons hpool, deal_cons (h.pool.trans hpool)]
      have hpopped : Rearranged p { g with pool := pool } { g' with pool := pool } :=
        ⟨by rw [h.frame], h.seats⟩
      refine (hpopped.dealOne n tile).bind fun a a' ha => ?_
      refine (ih ha).bind fun c c' hc => ?_
      exact .ok ⟨hc.1, congrArg ((n, tile) :: ·) hc.2⟩

theorem Rearranged.exists_seats (h : g.Rearranged p g') :
    ∃ seats', g' = { g with seats := seats' } :=
  ⟨_, h.frame⟩

theorem messagesApart_cons_of_eq (ho : o.player = some p) :
    messagesApart p (o :: out) = messagesApart p out :=
  List.filter_cons_of_neg (by simp [ho])

theorem messagesApart_append :
    messagesApart p (out ++ out') = messagesApart p out ++ messagesApart p out' :=
  List.filter_append ..

theorem Rearranged.apart_boardMessage (h : g.Rearranged p g') (hb : b.Rearranged (name = p) b')
    (k : Kind) (socket : Option SocketId) :
    messagesApart p [g'.boardMessage k name b' socket] =
      messagesApart p [g.boardMessage k name b socket] := by
  by_cases hp : name = p
  · subst hp
    rw [messagesApart_cons_of_eq rfl, messagesApart_cons_of_eq rfl]
  · rw [hb.same hp, h.boardMessage]

theorem Rearranged.joined (h : g.Rearranged p g') (hb : b.Rearranged (name = p) b')
    (socket : Option SocketId) :
    (g.joined name b socket).Rearranged p (g'.joined name b' socket) := by
  obtain ⟨seats', rfl⟩ := h.exists_seats
  have hsit := h.sit hb g.settings.prize
  refine ⟨hsit, fun _ => ?_, rfl, rfl⟩
  simp only [Game.joined, hsit.others, hsit.infoChanged, hsit.toPlayer]
  rw [← List.singleton_append, List.append_assoc, messagesApart_append,
    hsit.apart_boardMessage hb, ← messagesApart_append]
  rfl

theorem Rearranged.newcomer (h : g.Rearranged p g') {grid : Option Grid}
    (hm : name = p ∨ grid = m.grid) :
    Matches (Rejection.Rearranged p) (Turn.Rearranged p) (g.newcomer name m)
      (g'.newcomer name { m with grid := grid }) := by
  obtain ⟨seats', rfl⟩ := h.exists_seats
  rw [Game.newcomer, Game.newcomer]
  refine (h.require .rfl rfl).bind fun _ _ _ => ?_
  refine (h.require (by rw [h.size_seats]) rfl).bind fun _ _ _ => ?_
  refine (h.require .rfl rfl).bind fun _ _ _ => ?_
  have hpool := h.restock (g.pool.drop g.settings.handSize.toNat) g.shuffler
  have hempty : (Board.empty ((m.grid.filter Grid.isValid).getD g.grid)).Rearranged (name = p)
      (Board.empty ((grid.filter Grid.isValid).getD g.grid)) :=
    Board.rearranged_empty fun hp => by rw [hm.resolve_left hp]
  refine ((hempty.foldlM_add _).mapError fun e e' he => ?_).bind fun b b' hb =>
    .ok (hpool.joined hb m.socket)
  exact ⟨congrArg Refusal.board he.symm, hpool⟩

theorem Rearranged.join (h : g.Rearranged p g') {grid : Option Grid}
    (hm : m.player = some p ∨ grid = m.grid) :
    Matches (Rejection.Rearranged p) (Turn.Rearranged p) (g.join m)
      (g'.join { m with grid := grid }) := by
  rw [Game.join, Game.join]
  refine (h.sender rfl).bind fun name name' ha => ?_
  obtain ⟨rfl, hp⟩ := ha
  obtain ⟨hs, hs'⟩ | ⟨s, s', hs, hs', hr⟩ := h.seat_cases name'
  · rw [hs, hs']
    exact h.newcomer (hm.imp_left fun he => Option.some.inj (hp.symm.trans he))
  · rw [hs, hs']
    exact .ok ⟨h, fun _ => h.apart_boardMessage hr.board _ _, rfl, rfl⟩

theorem Rearranged.delete (h : g.Rearranged p g') (m : Message) :
    Matches (Rejection.Rearranged p) (Turn.Rearranged p) (g.delete m) (g'.delete m) := by
  rw [Game.delete, Game.delete]
  refine (h.seated m).bind fun a a' ha => .ok ⟨h, fun _ => ?_, rfl, rfl⟩
  simp only [leaveAll, h.toAll, ha.name]

theorem Rearranged.start (h : g.Rearranged p g') (name : String) :
    (g.start name).Rearranged p (g'.start name) := by
  have hnext := h.setStatus .inProgress
  refine ⟨hnext, fun _ => ?_, rfl, rfl⟩
  simp only [Game.start, hnext.toAll, hnext.summary, hnext.infoChanged]

theorem Rearranged.award (h : g.Rearranged p g') (name : String) :
    g'.award name = g.award name := by
  refine Table.ext_get? fun x => ?_
  rw [Game.award, Game.award, Table.get?_map, Table.get?_map]
  obtain ⟨hs, hs'⟩ | ⟨s, s', hs, hs', hr⟩ := h.seat_cases x
  · rw [hs, hs']
  · rw [hs, hs', Option.map_some, Option.map_some, hr.prize]

theorem Rearranged.won (h : g.Rearranged p g') (hs : g.seats.get? name = some seat)
    (status : Status) :
    (g.won name seat status).Rearranged p (g'.won name seat status) where
  game := h.setStatus status
  out hnone := by
    have hname : name ∈ g.players := Table.mem_keys.2 ⟨seat, hs⟩
    have hshown := hnone _ (List.mem_append_left _ (List.mem_map.2 ⟨name, hname, rfl⟩))
    cases hshown
  keep := rfl
  award := congrArg some ((h.setStatus status).award name)

theorem Rearranged.finish (h : g.Rearranged p g') (hs : g.seats.get? name = some seat)
    (status : Status) :
    Matches (Rejection.Rearranged p) (Turn.Rearranged p) (g.finish name seat status)
      (g'.finish name seat status) := by
  rw [Game.finish, Game.finish, h.pool]
  refine (h.require .rfl rfl).bind fun _ _ _ => ?_
  exact (h.checkBoard name seat.board).bind fun _ _ _ => .ok (h.won hs status)

def AsksFinish (p : String) (m : Message) : Prop :=
  m.player = some p ∧ m.kind = .changeGameStatus ∧ ∃ wanted, m.game = some wanted ∧
    wanted.status.isFinished

theorem Rearranged.changeStatus (h : g.Rearranged p g') (hk : m.kind = .changeGameStatus)
    (hp : ¬ AsksFinish p m) :
    Matches (Rejection.Rearranged p) (Turn.Rearranged p) (g.changeStatus m)
      (g'.changeStatus m) := by
  obtain ⟨seats', rfl⟩ := h.exists_seats
  rw [Game.changeStatus, Game.changeStatus]
  refine (h.seated m).bind fun a a' ha => ?_
  obtain ⟨name, seat⟩ := a
  obtain ⟨name', seat'⟩ := a'
  obtain ⟨hname, hplayer, hseated, hseat⟩ := ha
  simp only at hname hplayer hseated hseat ⊢
  subst hname
  cases hg : m.game with
  | none => exact .error (h.reject _)
  | some wanted =>
    simp only
    have hsame (hf : wanted.status.isFinished) : seat' = seat :=
      hseat.same fun he => hp ⟨by rw [hplayer, he], hk, wanted, hg, hf⟩
    split
    · exact .ok (h.start _)
    · rename_i hnext
      rw [hsame (hnext ▸ rfl)]
      exact h.finish hseated _
    · rename_i hnext
      rw [hsame (hnext ▸ rfl)]
      exact h.finish hseated _
    · exact .error (h.reject _)

theorem Rearranged.snagged (h : g.Rearranged p g') (name : String)
    (dealt : List (String × Tile)) :
    (g.snagged name dealt).Rearranged p (g'.snagged name dealt) := by
  refine ⟨h, fun _ => ?_, rfl, rfl⟩
  simp only [Game.snagged, h.toAll, h.poolSize]

theorem Rearranged.checkOnSnag (h : g.Rearranged p g') (hrule : g.rules.checkOnSnag = false)
    (name : String) (b b' : Board) :
    Matches (Rejection.Rearranged p) (fun _ _ => True) (g.checkOnSnag name b)
      (g'.checkOnSnag name b') := by
  rw [Game.checkOnSnag, Game.checkOnSnag, h.rules, hrule]
  exact .ok trivial

theorem Rearranged.snag (h : g.Rearranged p g') (hrule : g.rules.checkOnSnag = false)
    (m : Message) :
    Matches (Rejection.Rearranged p) (Turn.Rearranged p) (g.snag m) (g'.snag m) := by
  obtain ⟨seats', rfl⟩ := h.exists_seats
  rw [Game.snag, Game.snag]
  refine (h.seated m).bind fun a a' ha => ?_
  refine (h.requireStatus _).bind fun _ _ _ => ?_
  refine (h.require .rfl rfl).bind fun _ _ _ => ?_
  rw [ha.name]
  refine (h.checkOnSnag hrule _ _ _).bind fun _ _ _ => ?_
  rw [h.others]
  have hshuffled := h.restock g.pool (g.shuffler.shuffle (g.others a.1)).2
  exact (hshuffled.deal _).bind fun c c' hc => .ok (hc.2 ▸ hc.1.snagged a.1 c.2)

theorem Rearranged.swapped (h : g.Rearranged p g') (name : String) (tile : Tile)
    (drawn : List Tile) (socket : Option SocketId) :
    (g.swapped name tile drawn socket).Rearranged p (g'.swapped name tile drawn socket) := by
  refine ⟨h, fun _ => ?_, rfl, rfl⟩
  simp only [Game.swapped, h.toPlayer, h.others, h.poolSize]

theorem Rearranged.swap (h : g.Rearranged p g') (m : Message) :
    Matches (Rejection.Rearranged p) (Turn.Rearranged p) (g.swap m) (g'.swap m) := by
  obtain ⟨seats', rfl⟩ := h.exists_seats
  rw [Game.swap, Game.swap]
  refine (h.seated m).bind fun a a' ha => ?_
  refine (h.requireStatus _).bind fun _ _ _ => ?_
  rw [ha.name]
  cases (m.tiles.getD []).head? with
  | none => exact .error (h.reject _)
  | some tile =>
    refine (h.require .rfl rfl).bind fun _ _ _ => ?_
    refine ((ha.seat.board.remove tile).mapError fun e e' he => ?_).bind fun b b' hb => ?_
    · exact ⟨congrArg Refusal.cannotSwap he.symm, h⟩
    · have hdrawn := h.restock ((g.shuffler.shuffle (g.pool ++ [tile])).1.drop swapDraw)
        (g.shuffler.shuffle (g.pool ++ [tile])).2
      exact (hdrawn.give hb _).bind fun c c' hc => .ok (hc.swapped _ _ _ _)

theorem Rearranged.chat (h : g.Rearranged p g') (m : Message) :
    Matches (Rejection.Rearranged p) (Turn.Rearranged p) (g.chat m) (g'.chat m) := by
  rw [Game.chat, Game.chat]
  refine (h.seated m).bind fun a a' ha => ?_
  refine (h.require .rfl rfl).bind fun _ _ _ => .ok ⟨h, fun _ => ?_, rfl, rfl⟩
  simp only [h.toAll, ha.name]

theorem Rearranged.move (h : g.Rearranged p g') (hp : m.player ≠ some p) :
    Matches (Rejection.Rearranged p) (Turn.Rearranged p) (g.move m) (g'.move m) := by
  rw [Game.move, Game.move]
  refine (h.seated m).bind fun a a' ha => ?_
  refine (h.requireStatus _).bind fun _ _ _ => ?_
  obtain rfl := ha.same hp
  cases m.placements with
  | none => exact .error (h.reject _)
  | some ps =>
    have hb : a'.2.board.Coherent := ha.seat.board.left
    have hmove : Matches Eq (Board.Rearranged (a'.1 = p)) (a'.2.board.move ps)
        (a'.2.board.move ps) := by
      cases hm : a'.2.board.move ps with
      | error e => exact .error rfl
      | ok b => exact .ok (.refl (hb.move hm))
    refine (hmove.mapError fun e e' he => ?_).bind fun b b' hb => ?_
    · exact ⟨congrArg Refusal.invalidMove he.symm, h⟩
    · exact .ok ⟨h.setBoard hb, fun _ => rfl, rfl, rfl⟩

theorem Rearranged.resized (h : g.Rearranged p g') (hb : b.Coherent) (moved : List Tile)
    (socket : Option SocketId) :
    (g.resized name b moved socket).Rearranged p (g'.resized name b moved socket) := by
  have hset : (g.setBoard name b).Rearranged p (g'.setBoard name b) := h.setBoard (.refl hb)
  refine ⟨hset, fun _ => ?_, rfl, rfl⟩
  simp only [Game.resized, hset.boardMessage]

theorem Rearranged.refresh (h : g.Rearranged p g') (hp : m.player ≠ some p) :
    Matches (Rejection.Rearranged p) (Turn.Rearranged p) (g.refresh m) (g'.refresh m) := by
  rw [Game.refresh, Game.refresh]
  refine (h.seated m).bind fun a a' ha => ?_
  obtain rfl := ha.same hp
  obtain ⟨name, seat⟩ := a'
  cases m.grid with
  | none => exact .ok ⟨h, fun _ => by simp only [h.boardMessage], rfl, rfl⟩
  | some grid =>
    refine (h.require .rfl rfl).bind fun _ _ _ => ?_
    exact .ok (h.resized (ha.seat.board.left.resize grid) _ _)

/-- What a request of `p` does that nobody else can notice. -/
structure Quiet (p : String) (g : Game) (t : Turn) : Prop where
  game : g.Rearranged p t.game
  out : ∀ o ∈ t.out, o.player = some p
  keep : t.keep = true
  award : t.award = none

theorem messagesApart_eq_nil (h : ∀ o ∈ out, o.player = some p) : messagesApart p out = [] :=
  List.filter_eq_nil_iff.2 fun o ho => by simp [h o ho]

theorem Quiet.rearranged (h : g.Rearranged p g') (hq : g.Quiet p t) (hq' : g'.Quiet p t') :
    t.Rearranged p t' where
  game := (hq.game.symm.trans h).trans hq'.game
  out _ := by rw [messagesApart_eq_nil hq.out, messagesApart_eq_nil hq'.out]
  keep := by rw [hq.keep, hq'.keep]
  award := by rw [hq.award, hq'.award]

theorem rearranged_refl (hg : g.Orderly) : g.Rearranged p g where
  frame := rfl
  seats x := by
    cases hs : g.seats.get? x with
    | none => exact .none
    | some s => exact .some ⟨rfl, .refl (hg x s hs)⟩

theorem Rearranged.orderly (h : g.Rearranged p g') : g.Orderly := by
  intro x s hs
  obtain ⟨hs', -⟩ | ⟨s', _, hs', -, hr⟩ := h.seat_cases x
  · rw [hs] at hs'
    cases hs'
  · rw [hs] at hs'
    exact Option.some.inj hs' ▸ hr.board.left

theorem quiet_setBoard (hg : g.Orderly) (hs : g.seats.get? p = some seat)
    (hb : seat.board.Rearranged True b) (ho : ∀ o ∈ out, o.player = some p) :
    g.Quiet p { game := g.setBoard p b, out := out } where
  game := by
    refine ⟨rfl, fun x => ?_⟩
    rw [get?_setBoard]
    split
    · rename_i hx
      subst hx
      rw [hs]
      exact .some ⟨rfl, hb.left, hb.right, hb.owned, fun hn => (hn rfl).elim⟩
    · exact (rearranged_refl hg).seats x
  out := ho
  keep := rfl
  award := rfl

theorem quiet_refuse (hg : g.Orderly) (hp : m.player = some p) {r : Rejection}
    (hr : r.game = g) : g.Quiet p (refuse m r) where
  game := by
    change g.Rearranged p r.game
    rw [hr]
    exact rearranged_refl hg
  out o ho := by
    rw [List.mem_singleton.1 ho]
    exact hp
  keep := rfl
  award := rfl

theorem quiet_move (hg : g.Orderly) (hp : m.player = some p) (hk : m.kind = .moveGameTiles) :
    g.Quiet p (g.handle m) := by
  rw [handle, respond, hk]
  cases hr : g.move m with
  | error r => exact quiet_refuse hg hp (move_error hr)
  | ok t =>
    cases move_ok hk hr with
    | moved asks now batch move =>
      obtain rfl := Option.some.inj (hp.symm.trans asks.player)
      have hb := hg _ _ asks.seat
      refine quiet_setBoard hg asks.seat ?_ fun o ho => by cases ho
      exact ⟨hb, hb.move move, hb.owned?_move move, fun hn => (hn trivial).elim⟩
    | joined kind => cases kind.symm.trans hk
    | returned asks | deleted asks | started asks | won asks | snagged asks | swapped asks
    | chatted asks | refreshed asks | resized asks => cases asks.kind.symm.trans hk

theorem quiet_refresh (hg : g.Orderly) (hp : m.player = some p) (hk : m.kind = .refreshGameBoard) :
    g.Quiet p (g.handle m) := by
  rw [handle, respond, hk]
  cases hr : g.refresh m with
  | error r => exact quiet_refuse hg hp (refresh_error hr)
  | ok t =>
    cases refresh_ok hk hr with
    | refreshed asks =>
      refine ⟨rearranged_refl hg, fun o ho => ?_, rfl, rfl⟩
      rw [List.mem_singleton.1 ho]
      exact asks.player.symm.trans hp
    | @resized _ _ grid asks =>
      obtain rfl := Option.some.inj (hp.symm.trans asks.player)
      have hb := hg _ _ asks.seat
      refine quiet_setBoard hg asks.seat ?_ fun o ho => ?_
      · exact ⟨hb, hb.resize grid, hb.owned?_resize grid, fun hn => (hn trivial).elim⟩
      · rw [List.mem_singleton.1 ho]
        split <;> rfl
    | joined kind => cases kind.symm.trans hk
    | returned asks | deleted asks | started asks | won asks | snagged asks | swapped asks
    | chatted asks | moved asks => cases asks.kind.symm.trans hk

theorem Rearranged.respond (h : g.Rearranged p g') (hrule : g.rules.checkOnSnag = false)
    (hfinish : ¬ AsksFinish p m) (hmove : m.kind = .moveGameTiles → m.player ≠ some p)
    (hrefresh : m.kind = .refreshGameBoard → m.player ≠ some p) :
    Matches (Rejection.Rearranged p) (Turn.Rearranged p) (g.respond m) (g'.respond m) := by
  rw [Game.respond, Game.respond]
  cases hk : m.kind with
  | joinGame => exact h.join (.inr rfl)
  | deleteGame => exact h.delete m
  | changeGameStatus => exact h.changeStatus hk hfinish
  | snagGameTile => exact h.snag hrule m
  | swapGameTile => exact h.swap m
  | moveGameTiles => exact h.move (hmove hk)
  | gameChat => exact h.chat m
  | refreshGameBoard => exact h.refresh (hrefresh hk)
  | _ => exact .error (h.reject _)

theorem rearranged_handle_of_respond (hm : ∀ k, m'.reply k = m.reply k)
    (h : Matches (Rejection.Rearranged p) (Turn.Rearranged p) (g.respond m) (g'.respond m')) :
    (g.handle m).Rearranged p (g'.handle m') := by
  rw [Game.handle, Game.handle]
  generalize g.respond m = x, g'.respond m' = x' at h
  cases h with
  | ok h => exact h
  | error h =>
    refine ⟨h.game, fun _ => ?_, rfl, rfl⟩
    simp only [refuse, h.refusal, h.game.id, hm]

/-- One step: games that only `p` can tell apart stay so, and so do their answers. -/
theorem Rearranged.handle (h : g.Rearranged p g') (hrule : g.rules.checkOnSnag = false)
    (hm : m.Rearranged p m') (hfinish : ¬ AsksFinish p m) :
    (g.handle m).Rearranged p (g'.handle m') := by
  have hg := h.orderly
  have hg' := h.symm.orderly
  have hquiet : m.player = some p → (m.kind = .moveGameTiles ∨ m.kind = .refreshGameBoard) →
      m'.player = m.player → m'.kind = m.kind → (g.handle m).Rearranged p (g'.handle m') := by
    intro hp hk hp' hk'
    obtain hk | hk := hk
    · exact (quiet_move hg hp hk).rearranged h (quiet_move hg' (hp'.trans hp) (hk'.trans hk))
    · exact (quiet_refresh hg hp hk).rearranged h (quiet_refresh hg' (hp'.trans hp) (hk'.trans hk))
  cases hm with
  | moved player kind ps => exact hquiet player (.inl kind) rfl rfl
  | gridded player kind grid =>
    obtain kind | kind := kind
    · exact hquiet player (.inr kind) rfl rfl
    · refine rearranged_handle_of_respond (fun _ => rfl) ?_
      rw [Game.respond, Game.respond, kind]
      exact h.join (.inl player)
  | same =>
    by_cases hp : m.player = some p ∧ (m.kind = .moveGameTiles ∨ m.kind = .refreshGameBoard)
    · exact hquiet hp.1 hp.2 rfl rfl
    · refine rearranged_handle_of_respond (fun _ => rfl) (h.respond hrule hfinish ?_ ?_)
      · exact fun hk hplayer => hp ⟨hplayer, .inl hk⟩
      · exact fun hk hplayer => hp ⟨hplayer, .inr hk⟩

theorem Rearranged.play (h : g.Rearranged p g') (hrule : g.rules.checkOnSnag = false)
    {ms ms' : List Message} (hms : List.Forall₂ (Message.Rearranged p) ms ms')
    (hfinish : ∀ m ∈ ms, ¬ AsksFinish p m) : (g.play ms).Rearranged p (g'.play ms') := by
  induction hms generalizing g g' with
  | nil => exact h
  | @cons m m' ms ms' hm hms ih =>
    have hstep := h.handle hrule hm (hfinish m List.mem_cons_self)
    refine ih hstep.game ?_ fun m hm => hfinish m (List.mem_cons_of_mem _ hm)
    rw [(g.progress m).rules, hrule]

/-- What everybody but the player `p` has to do with in a game is the same in both. -/
structure AlikeApart (p : String) (g g' : Game) : Prop where
  pool : g'.pool = g.pool
  shuffler : g'.shuffler = g.shuffler
  status : g'.status = g.status
  players : g'.players = g.players
  boards : ∀ x, x ≠ p → g'.board? x = g.board? x

/-- Everybody but the player `p` hears the same, and the game goes on in both cases or in none. -/
structure HeardAlike (p : String) (t t' : Turn) : Prop where
  messages : ∀ x, x ≠ p → messagesTo x t'.out = messagesTo x t.out
  news : announced t'.out = announced t.out
  keep : t'.keep = t.keep
  award : t'.award = t.award

theorem Rearranged.alikeApart (h : g.Rearranged p g') : AlikeApart p g g' :=
  ⟨h.pool, h.shuffler, h.status, h.players, fun _ hx => h.board? hx⟩

theorem messagesTo_messagesApart (hx : x ≠ p) :
    messagesTo x (messagesApart p out) = messagesTo x out := by
  rw [messagesTo, messagesApart, List.filter_filter, messagesTo]
  refine List.filter_congr fun o _ => ?_
  by_cases ho : o.player = some x <;> simp [ho, hx]

theorem announced_messagesApart (g : Game) (m : Message) (p : String) :
    announced (messagesApart p (g.handle m).out) = announced (g.handle m).out := by
  rw [announced, messagesApart, List.filter_filter, announced]
  refine List.filter_congr fun o ho => ?_
  by_cases hk : o.kind = .gameInfoChanged
  · have hnews : o ∈ announced (g.handle m).out := List.mem_filter.2 ⟨ho, by simpa using hk⟩
    have hplayer : o.player = none := by
      obtain ⟨hquiet, -⟩ | hnew := (g.progress m).news
      · rw [hquiet] at hnews
        cases hnews
      · rw [hnew] at hnews
        rw [List.mem_singleton.1 hnews, player_infoChanged]
    simp [hk, hplayer]
  · simp [hk]

theorem finalBoards_handle (hg : g.Orderly)
    (hstay : g.status = .inProgress → (g.handle m).game.status = .inProgress)
    (ho : o ∈ (g.handle m).out) : o.finalBoards = none := by
  refine Option.not_isSome_iff_eq_none.1 fun hf => ?_
  obtain ⟨hnow, hnext⟩ := (hg.discloses_handle ho).final hf
  exact hnext (hstay hnow)

/-- How a player lays out tiles is hidden from the others as long as the game is in progress: no
draw, no board, and nothing that they hear, depends on it. -/
theorem arrangement_hidden {id : GameId} {settings : Settings} {rules : Rules} {grid : Grid}
    {words : Dictionary} {createdAt : UInt64} (hrule : rules.checkOnSnag = false)
    (h : setUp id settings rules grid words createdAt = .ok g) {ms ms' : List Message}
    (hms : List.Forall₂ (Message.Rearranged p) ms ms') (hfinish : ∀ m ∈ ms, ¬ AsksFinish p m) :
    AlikeApart p (g.play ms) (g.play ms') ∧
    ∀ m m', m.Rearranged p m' → ¬ AsksFinish p m →
      ((g.play ms).status = .inProgress → ((g.play ms).handle m).game.status = .inProgress) →
      HeardAlike p ((g.play ms).handle m) ((g.play ms').handle m') := by
  have hg : g.Ordered := .setUp h
  have hr : g.rules.checkOnSnag = false := by rw [setUp_eq_ok h, hrule]
  have hplay := (rearranged_refl hg.orderly).play hr hms hfinish
  refine ⟨hplay.alikeApart, fun m m' hm hf hstay => ?_⟩
  have hstep := hplay.handle (by rw [rules_play, hr]) hm hf
  have hout := hstep.out fun o ho => finalBoards_handle hplay.orderly hstay ho
  refine ⟨fun x hx => ?_, ?_, hstep.keep, hstep.award⟩
  · rw [← messagesTo_messagesApart hx, hout, messagesTo_messagesApart hx]
  · rw [← announced_messagesApart _ _ p, hout, announced_messagesApart]

def laying (x : Int32) : Message :=
  { kind := .moveGameTiles, player := some "ann", placements := some [⟨⟨1, 'C'⟩, x, 7⟩] }

def snagging : Message := { kind := .snagGameTile, player := some "bob" }

/-- One of the two moves goes out of bounds. -/
theorem arrangement_hidden_laying : ∃ g,
    setUp 1 { letters := "CATDOGS", handSize := 2 } ⟨false, true, 2, true⟩ .standard ⟨["CAT"]⟩ 0 =
      .ok g ∧
    (g.play (opening ++ [laying 4])).board? "ann" ≠ (g.play (opening ++ [laying 99])).board? "ann" ∧
    AlikeApart "ann" (g.play (opening ++ [laying 4])) (g.play (opening ++ [laying 99])) ∧
    HeardAlike "ann" ((g.play (opening ++ [laying 4])).handle snagging)
      ((g.play (opening ++ [laying 99])).handle snagging) := by
  have h : setUp 1 { letters := "CATDOGS", handSize := 2 } ⟨false, true, 2, true⟩ .standard
    ⟨["CAT"]⟩ 0 = .ok _ := rfl
  have hms : List.Forall₂ (Message.Rearranged "ann") (opening ++ [laying 4])
      (opening ++ [laying 99]) :=
    .cons .same (.cons .same (.cons .same (.cons (.moved rfl rfl _) .nil)))
  have hfinish : ∀ m ∈ opening ++ [laying 4], ¬ AsksFinish "ann" m := by
    simp [opening, laying, AsksFinish, Status.isFinished]
  obtain ⟨halike, hheard⟩ := arrangement_hidden rfl h hms hfinish
  exact ⟨_, h, by decide, halike, hheard snagging snagging .same (by simp [AsksFinish, snagging])
    fun _ => rfl⟩

end TileRace.Game
