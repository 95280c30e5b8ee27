import TileRace.Proofs.Game.Lifecycle
import TileRace.Proofs.Game.Session

namespace TileRace

theorem Status.Next.notStarted {s : Status} (h : s.Next .notStarted) : s = .notStarted := by
  cases h with
  | stay => rfl
  | finish h => cases h

namespace Game

variable {α β ε : Type} {g : Game} {m o : Message} {name : String} {t : Turn} {r : Rejection}

theorem notStarted_of_handle (h : (g.handle m).game.status = .notStarted) :
    g.status = .notStarted := by
  have hstatus := (g.progress m).advances.status
  rw [h] at hstatus
  exact hstatus.notStarted

theorem players_handle (h : g.status ≠ .notStarted) (m : Message) :
    (g.handle m).game.players = g.players :=
  by_contra fun hne => h ((g.progress m).advances.closed hne)

def Bears (x : Refusal) : Prop := x.kind = .socketWarning ∨ x.kind = .socketError

/-- If this goes wrong, nobody is told to leave. -/
def Mild (x : Except Rejection α) : Prop := ∀ r, x = .error r → Bears r.refusal

theorem mild_ok (a : α) : Mild (.ok a : Except Rejection α) := fun _ h => nomatch h

theorem mild_error (h : Bears r.refusal) : Mild (.error r : Except Rejection α) :=
  fun _ he => Except.error.inj he ▸ h

theorem Mild.bind {x : Except Rejection α} {f : α → Except Rejection β} (hx : Mild x)
    (hf : ∀ a, Mild (f a)) : Mild (x >>= f) := by
  intro r h
  obtain h | ⟨a, -, h⟩ := bind_eq_error.1 h
  · exact hx r h
  · exact hf a r h

theorem mild_mapError {x : Except ε α} {f : ε → Rejection}
    (h : ∀ e, Bears (f e).refusal) : Mild (x.mapError f) := by
  intro r hr
  obtain ⟨e, -, rfl⟩ := mapError_eq_error.1 hr
  exact h e

theorem mild_require {c : Prop} [Decidable c] {x : Refusal} (h : Bears x) :
    Mild (g.require c x) := by
  rw [require]
  split
  · exact mild_ok _
  · exact mild_error h

theorem mild_seated (g : Game) (m : Message) : Mild (g.seated m) := by
  rw [seated, sender]
  refine Mild.bind ?_ fun name => ?_
  · split
    · exact mild_ok _
    · exact mild_error (.inr rfl)
  · split
    · exact mild_ok _
    · exact mild_error (.inl rfl)

theorem mild_checkBoard (g : Game) (name : String) (b : Board) : Mild (g.checkBoard name b) :=
  mild_mapError fun _ => .inl rfl

theorem mild_finish (g : Game) (name : String) (seat : Seat) (status : Status) :
    Mild (g.finish name seat status) :=
  (mild_require (.inl rfl)).bind fun _ =>
    (mild_checkBoard g name seat.board).bind fun _ => mild_ok _

theorem mild_changeStatus (g : Game) (m : Message) : Mild (g.changeStatus m) := by
  refine (mild_seated g m).bind fun ⟨name, seat⟩ => ?_
  dsimp only
  split
  · exact mild_error (.inr rfl)
  · split
    · exact mild_ok _
    · exact mild_finish g name seat _
    · exact mild_finish g name seat _
    · exact mild_error (.inl rfl)

theorem mild_give (g : Game) (name : String) (b : Board) (ts : List Tile) :
    Mild (g.give name b ts) := by
  induction ts generalizing b with
  | nil => exact mild_ok _
  | cons t ts ih =>
    rw [give]
    split
    · exact mild_error (.inr rfl)
    · exact ih _

theorem mild_deal (g : Game) (names : List String) : Mild (g.deal names) := by
  induction names generalizing g with
  | nil => exact mild_ok _
  | cons name names ih =>
    rw [deal]
    split
    · exact mild_ok _
    · dsimp only
      split
      · exact (mild_ok _).bind fun g => (ih g).bind fun _ => mild_ok _
      · exact (mild_give _ name _ _).bind fun g => (ih g).bind fun _ => mild_ok _

theorem mild_snag (g : Game) (m : Message) : Mild (g.snag m) := by
  refine (mild_seated g m).bind fun ⟨name, seat⟩ =>
    (mild_require (.inl rfl)).bind fun _ =>
    (mild_require (.inl rfl)).bind fun _ => Mild.bind ?_ fun _ => ?_
  · rw [checkOnSnag]
    split
    · exact mild_checkBoard g name seat.board
    · exact mild_ok _
  · exact (mild_deal _ _).bind fun _ => mild_ok _

theorem mild_swap (g : Game) (m : Message) : Mild (g.swap m) := by
  refine (mild_seated g m).bind fun ⟨name, seat⟩ =>
    (mild_require (.inl rfl)).bind fun _ => ?_
  dsimp only
  split
  · exact mild_error (.inr rfl)
  · exact (mild_require (.inl rfl)).bind fun _ =>
      (mild_mapError fun _ => .inl rfl).bind fun _ =>
      (mild_give _ name _ _).bind fun _ => mild_ok _

theorem mild_move (g : Game) (m : Message) : Mild (g.move m) := by
  refine (mild_seated g m).bind fun ⟨name, seat⟩ =>
    (mild_require (.inl rfl)).bind fun _ => ?_
  split
  · exact mild_error (.inr rfl)
  · exact (mild_mapError fun _ => .inl rfl).bind fun _ => mild_ok _

theorem mild_refresh (g : Game) (m : Message) : Mild (g.refresh m) := by
  refine (mild_seated g m).bind fun ⟨name, seat⟩ => ?_
  dsimp only
  split
  · exact mild_ok _
  · exact (mild_require (.inl rfl)).bind fun _ => mild_ok _

theorem mild_respond (hk : m.kind ≠ .joinGame) : Mild (g.respond m) := by
  rw [respond]
  split
  · exact (hk ‹_›).elim
  · exact (mild_seated g m).bind fun _ => mild_ok _
  · exact mild_changeStatus g m
  · exact mild_snag g m
  · exact mild_swap g m
  · exact mild_move g m
  · exact (mild_seated g m).bind fun _ =>
      (mild_require (.inl rfl)).bind fun _ => mild_ok _
  · exact mild_refresh g m
  · exact mild_error (.inr rfl)

/-- Nobody can join the game any more. -/
def Shut (g : Game) : Prop :=
  g.status ≠ .notStarted ∨ g.settings.maxPlayers.toNat ≤ g.seats.size ∨
    g.pool.length < g.settings.handSize.toNat

theorem shut_of_join (h : g.join m = .error r) (hk : r.refusal.kind = .leaveGame) :
    g.Shut ∧ ∀ x ∈ g.players, m.player ≠ some x := by
  simp only [join, bind_eq_error, sender_eq_error, sender_eq_ok] at h
  obtain ⟨-, rfl⟩ | ⟨name, hp, h⟩ := h
  · cases hk
  split at h
  · cases h
  rename_i hs
  refine ⟨?_, fun x hx he => Table.not_mem_keys.2 hs ?_⟩
  · simp only [newcomer, bind_eq_error, require_eq_error, mapError_eq_error] at h
    obtain ⟨hnow, -⟩ | ⟨_, -, ⟨hfull, -⟩ | ⟨_, -, ⟨hfew, -⟩ | ⟨_, -, ⟨e, -, rfl⟩ | ⟨_, -, h⟩⟩⟩⟩ := h
    · exact .inl hnow
    · exact .inr (.inl (Nat.le_of_not_lt hfull))
    · exact .inr (.inr (Nat.lt_of_not_le hfew))
    · cases hk
    · cases h
  · exact Option.some.inj (hp.symm.trans he) ▸ hx

theorem Accepted.stays (h : g.Accepted m t) (hkeep : t.keep) (ho : o ∈ t.out) :
    o.kind ≠ .leaveGame := by
  cases h with
  | returned | refreshed =>
    rw [List.mem_singleton.1 ho]
    rintro ⟨⟩
  | joined =>
    obtain ho | ho := List.mem_append.1 ho
    · obtain rfl | ho := List.mem_cons.1 ho
      · rintro ⟨⟩
      · obtain ⟨x, -, rfl⟩ := List.mem_map.1 ho
        rintro ⟨⟩
    · rw [List.mem_singleton.1 ho]
      rintro ⟨⟩
  | deleted => cases hkeep
  | started | won =>
    obtain ho | ho := List.mem_append.1 ho
    · simp [kind_toAll ho fun _ _ => rfl]
    · rw [List.mem_singleton.1 ho]
      rintro ⟨⟩
  | snagged | chatted =>
    simp only [Game.snagged] at ho
    simp [kind_toAll ho fun _ _ => rfl]
  | swapped =>
    obtain rfl | ho := List.mem_cons.1 ho
    · rintro ⟨⟩
    · obtain ⟨x, -, rfl⟩ := List.mem_map.1 ho
      rintro ⟨⟩
  | moved => cases ho
  | resized =>
    rw [List.mem_singleton.1 ho]
    split <;> rintro ⟨⟩

theorem leave_handle (hkeep : (g.handle m).keep) (ho : o ∈ (g.handle m).out)
    (hk : o.kind = .leaveGame) : g.Shut ∧ ∀ x ∈ g.players, o.player ≠ some x := by
  rw [handle] at hkeep ho
  cases hr : g.respond m with
  | ok t =>
    rw [hr] at hkeep ho
    exact ((respond_ok hr).stays hkeep ho hk).elim
  | error r =>
    rw [hr] at ho
    have ho := List.mem_singleton.1 ho
    have hleave : r.refusal.kind = .leaveGame := (congrArg (·.kind) ho).symm.trans hk
    have hjoin : m.kind = .joinGame := by
      refine by_contra fun hne => ?_
      obtain h | h := mild_respond hne r hr <;> cases hleave.symm.trans h
    have hplayer : o.player = m.player := congrArg (·.player) ho
    simp only [respond, hjoin] at hr
    rw [hplayer]
    exact shut_of_join hr hleave

theorem Shut.game_of_error (h : g.Shut) (hnow : g.status = .notStarted)
    (hr : g.respond m = .error r) : r.game = g := by
  have hidle : g.status ≠ .inProgress := by simp [hnow]
  obtain hr | hr := respond_error hr
  · cases hr with
    | unchanged game => exact game
    | failed fails => exact (hidle fails.asked.1).elim
  · cases hr with
    | joining kind now room enough =>
      obtain h | h | h := h
      · exact (h now).elim
      · omega
      · omega
    | snagging asks now | swapping asks now => exact (hidle now).elim

theorem size_setBoard (g : Game) (name : String) (b : Board) :
    (g.setBoard name b).seats.size = g.seats.size := by
  rw [setBoard, Table.modify, Table.map, Table.size, List.length_map, Table.size]

theorem Shut.handle (h : g.Shut) (m : Message) :
    (g.handle m).game.Shut ∧ (g.handle m).game.players = g.players := by
  -- before its start a game is shut for want of seats or tiles, and gets no more of them
  by_cases hnow : g.status = .notStarted
  · have hidle : g.status ≠ .inProgress := by simp [hnow]
    have hfull := h.resolve_left (not_not.2 hnow)
    rw [Game.handle]
    cases hr : g.respond m with
    | error r =>
      change r.game.Shut ∧ r.game.players = g.players
      rw [h.game_of_error hnow hr]
      exact ⟨h, rfl⟩
    | ok t =>
      cases respond_ok hr with
      | returned | deleted | chatted | refreshed => exact ⟨h, rfl⟩
      | joined kind player absent status room enough => omega
      | started => exact ⟨.inl (by rintro ⟨⟩), rfl⟩
      | won asks game now => exact (hidle now).elim
      | snagged asks now => exact (hidle now).elim
      | swapped asks now => exact (hidle now).elim
      | moved asks now =>
        obtain now | now := now
        · exact (hidle now).elim
        · cases hnow.symm.trans now
      | resized => exact ⟨.inr (by rwa [resized, size_setBoard]), players_setBoard _ _ _⟩
  · exact ⟨.inl fun hnext => hnow (notStarted_of_handle hnext), players_handle hnow m⟩

def leavers (g : Game) (ms : List Message) : List String :=
  ms.filterMap fun o => if o.kind = .leaveGame then o.player.filter (· ∈ g.players) else none

theorem leavers_append (g : Game) (ms ms' : List Message) :
    g.leavers (ms ++ ms') = g.leavers ms ++ g.leavers ms' := List.filterMap_append

theorem leavers_eq_nil {ms : List Message}
    (h : ∀ o ∈ ms, o.kind = .leaveGame → ∀ x ∈ g.players, o.player ≠ some x) :
    g.leavers ms = [] := by
  refine List.filterMap_eq_nil_iff.2 fun o ho => ?_
  split
  · rename_i hk
    exact Option.filter_eq_none_iff.2 fun x hx => by
      simpa using fun hm => h o ho hk x hm hx
  · rfl

theorem leavers_leaveAll (g : Game) (reason : String) :
    g.leavers (g.leaveAll reason) = g.players := by
  rw [leavers, leaveAll, toAll, List.filterMap_map]
  refine (List.filterMap_congr fun x hx => ?_).trans List.filterMap_some
  have hplayer : ((g.toPlayer .leaveGame x none).withInfo reason).player = some x := rfl
  simp [hplayer, hx]

theorem players_sorted (g : Game) : g.players.Pairwise (· < ·) :=
  List.pairwise_map.2 (g.seats.sorted.imp compareOfLessAndEq_eq_lt.1)

end Game

namespace Session

variable {s : Session} {now : Nat} {a : Act} {r : Result}

theorem act_settings {s' : Session} (h : s.act now a = some r) (hs : r.session = some s') :
    s'.game.settings = s.game.settings := by
  cases acts_act h with
  | handled act next keep lasts session | failed act next late session =>
    rw [← Option.some.inj (session.symm.trans hs)]
    exact (s.game.progress _).settings
  | ended session => cases session.symm.trans hs

theorem Ends.mem_bye {bye : List Message} (h : s.Ends now a bye) {o : Message} (ho : o ∈ bye) :
    o.kind = .leaveGame ∧ o.socket = none := by
  cases h with
  | deleted | idle =>
    obtain ⟨x, -, rfl⟩ := Game.mem_toAll.1 ho
    exact ⟨rfl, rfl⟩
  | halted => cases ho

theorem Ends.leavers {bye : List Message} (h : s.Ends now a bye) :
    s.game.leavers (bye ++ [s.game.deleted]) = if a = .halt then [] else s.game.players := by
  have hdeleted : s.game.leavers [s.game.deleted] = [] := rfl
  rw [Game.leavers_append, hdeleted, List.append_nil]
  cases h with
  | deleted | idle => exact Game.leavers_leaveAll _ _
  | halted => rfl

end Session

end TileRace
