import TileRace.Proofs.Server.Tracking

namespace TileRace

/-- How many requests of a connection to join a session has not answered, or has answered without
the lobby having taken that up yet. -/
def Registry.unanswered (r : Registry) (socket : SocketId) (n : Nat) : Nat :=
  (r.inbox n).countP (isJoin socket) + (r.underway n).countP (isJoin socket)

def Duty.asks (socket : SocketId) : Duty → Bool
  | .pass _ m _ _ => isJoin socket m
  | .tell .. => false

namespace Deed

def asks (socket : SocketId) : Deed → Bool
  | .hear m => (m.kind = .joinGame ∨ m.kind = .createGame) ∧ m.socket = some socket
  | _ => false

def seats (socket : SocketId) (n : Nat) : Deed → Bool
  | .route k m => k = n ∧ isJoin socket m
  | _ => false

end Deed

namespace Registry

variable {r r' : Registry} {m : Message} {n k now : Nat} {socket : SocketId}

theorem unanswered_congr (hi : r'.inbox k = r.inbox k) (hu : r'.underway k = r.underway k) :
    r'.unanswered socket k = r.unanswered socket k := by
  rw [unanswered, hi, hu, unanswered]

theorem Opens.unanswered_le {c : Created} {s : Session} (h : r.Opens m c s) :
    c.registry.unanswered socket k ≤ r.unanswered socket k := by
  rw [unanswered, h.inbox, h.underway, unanswered]
  split
  · exact Nat.add_le_add_right (Nat.zero_le _) _
  · exact Nat.le_refl _

theorem unanswered_deliver (h : r.deliver n m = .accepted r') (hm : isJoin socket m = false) :
    r'.unanswered socket k = r.unanswered socket k := by
  obtain ⟨halike, hinbox⟩ := deliver_eq_accepted h
  have hnone : (if k = n then [m] else []).countP (isJoin socket) = 0 := by
    split
    · rw [List.countP_singleton, hm]
      rfl
    · rfl
  rw [unanswered, hinbox, halike.underway, List.countP_append, hnone, unanswered, Nat.add_zero]

theorem Plays.unanswered_le {s : Session} {a : Session.Act} {result : Session.Result}
    (h : r.Plays n s result r') (ha : s.act now a = some result) :
    r'.unanswered socket k ≤ r.unanswered socket k := by
  by_cases hk : k = n
  · subst hk
    have hanswers := Session.act_countP_isJoin ha socket
    rw [unanswered, unanswered, inbox, h.sessions, if_pos rfl, h.underway, if_pos rfl, inbox,
      h.session, List.countP_append]
    dsimp only [Option.map_some, Option.getD_some]
    omega
  · refine Nat.le_of_eq (unanswered_congr ?_ ?_)
    · rw [inbox, h.sessions, if_neg hk, inbox]
    · rw [h.underway, if_neg hk, List.append_nil]

theorem Takes.unanswered (h : r.Takes n m r') :
    [Deed.route n m].countP (Deed.seats socket k) + r'.unanswered socket k =
      r.unanswered socket k := by
  have hinbox : r'.inbox k = r.inbox k := by
    rw [inbox, h.sessions, inbox]
  rw [List.countP_singleton, Deed.seats]
  by_cases hk : k = n
  · subst hk
    rw [Registry.unanswered, Registry.unanswered, hinbox, h.head, List.countP_cons]
    simp only [true_and, Bool.decide_eq_true]
    omega
  · rw [unanswered_congr hinbox (h.others k hk)]
    simp [Ne.symm hk]

end Registry

namespace Lobby

variable {l l' l'' : Lobby} {m : Message} {ds ds' : List Duty} {d : Option Deed}
  {deeds deeds' : List Deed} {socket : SocketId} {k now : Nat}

/-- Whatever puts a connection into a game on the way from `l` to `l'` answers a request that was
not answered in `l`. -/
structure Settles (l : Lobby) (socket : SocketId) (deeds : List Deed) (l' : Lobby) : Prop where
  answers n : deeds.countP (Deed.seats socket n) + l'.games.unanswered socket n ≤
    l.games.unanswered socket n
  away : l.gameOf socket = none → (∀ n, deeds.countP (Deed.seats socket n) = 0) →
    l'.gameOf socket = none

theorem Settles.trans (h : l.Settles socket deeds l') (h' : l'.Settles socket deeds' l'') :
    l.Settles socket (deeds ++ deeds') l'' := by
  refine ⟨fun n => ?_, fun haway hnone => ?_⟩
  · have hfirst := h.answers n
    have hsecond := h'.answers n
    rw [List.countP_append]
    omega
  · have hboth (n : Nat) := Nat.add_eq_zero_iff.1 (List.countP_append.symm.trans (hnone n))
    exact h'.away (h.away haway fun n => (hboth n).1) fun n => (hboth n).2

theorem Settles.still (hdeeds : ∀ n, deeds.countP (Deed.seats socket n) = 0)
    (hgames : ∀ n, l'.games.unanswered socket n ≤ l.games.unanswered socket n)
    (hgame : l.gameOf socket = none → l'.gameOf socket = none) : l.Settles socket deeds l' where
  answers n := by
    rw [hdeeds, Nat.zero_add]
    exact hgames n
  away h _ := hgame h

theorem Settles.refl (l : Lobby) : l.Settles socket [] l :=
  .still (fun _ => rfl) (fun _ => Nat.le_refl _) id

theorem Receives.settles (hr : l.Receives now m l' ds) :
    l.Settles socket [.hear m] l' := by
  have hdeeds (n : Nat) : [Deed.hear m].countP (Deed.seats socket n) = 0 := rfl
  cases hr with
  | dropped | passed | answered => exact .still hdeeds (fun _ => Nat.le_refl _) id
  | created sent kind game =>
    obtain ⟨s, hs⟩ := Registry.create_eq_ok game
    exact .still hdeeds (fun _ => hs.unanswered_le) id
  | left =>
    refine .still hdeeds (fun _ => Nat.le_refl _) fun h => ?_
    rw [gameOf_setGame_none, h, ite_self]

theorem Receives.unasked (hr : l.Receives now m l' ds)
    (hm : Deed.asks socket (.hear m) = false) : ∀ x ∈ ds, x.asks socket = false := by
  have hm : ¬ ((m.kind = .joinGame ∨ m.kind = .createGame) ∧ m.socket = some socket) :=
    of_decide_eq_false hm
  intro x hx
  cases hr with
  | dropped => cases hx
  | left | answered =>
    rw [List.mem_singleton.1 hx]
    rfl
  | created sent kind game =>
    obtain ⟨s, hs⟩ := Registry.create_eq_ok game
    rw [List.mem_singleton.1 hx]
    exact decide_eq_false fun h => hm ⟨.inr kind, hs.socket.symm.trans h.2⟩
  | passed sent kind found =>
    rw [List.mem_singleton.1 hx]
    exact decide_eq_false fun h => hm ⟨.inl h.1, h.2⟩

theorem Reports.unanswered (hr : l.Reports m l' ds) :
    l'.games.unanswered socket k = l.games.unanswered socket k := by
  cases hr with
  | news => rfl
  | deleted kind about deletes =>
    have hremoves := l.games.removes_remove
    rw [deletes.frame]
    exact Registry.unanswered_congr ((hremoves _).inbox k) ((hremoves _).underway k)
  | routed lasting quiet routes => rw [routes.moved.frame]

theorem Reports.away (hr : l.Reports m l' ds) (hid : m.gameId.isSome)
    (hm : isJoin socket m = false) (h : l.gameOf socket = none) : l'.gameOf socket = none := by
  cases hr with
  | news => exact h
  | deleted kind about deletes =>
    rw [deletes.gameOf, h]
    rfl
  | routed lasting quiet routes =>
    rw [routes.gameOf, h]
    split
    · rename_i hs
      obtain hs | hs := routes.meant socket hs
      · have hj : m.kind ≠ .joinGame := fun hj => of_decide_eq_false hm ⟨hj, hs⟩
        by_cases hl : m.kind = .leaveGame
        · rw [track_leaveGame hl hid, ite_self]
        · exact track_of_ne hj hl
      · rw [h] at hs
        rw [← hs] at hid
        cases hid
    · rfl

theorem Consistent.unasked (h : l.Consistent) (hstep : l.Step ds d l' ds')
    (hds : ∀ x ∈ ds, x.asks socket = false) (hd : ∀ x ∈ d, x.asks socket = false) :
    ∀ x ∈ ds', x.asks socket = false := by
  cases hstep with
  | rest | play | cancel | forget => exact hds
  | tell | pass | answer => exact fun x hx => hds x (List.mem_cons_of_mem _ hx)
  | enroll free hok =>
    obtain ⟨-, rfl, -⟩ := enroll_eq_ok hok
    intro x hx
    rw [List.mem_singleton.1 hx]
    rfl
  | hear now free => exact (receives_receive l now _).unasked (hd _ rfl)
  | route free hm =>
    obtain ⟨-, hr⟩ := h.reports hm
    intro x hx
    cases x with
    | tell => rfl
    | pass => exact (hr.passless hx).elim

theorem Consistent.settles (h : l.Consistent) (hstep : l.Step ds d l' ds')
    (hds : ∀ x ∈ ds, x.asks socket = false) : l.Settles socket d.toList l' := by
  have hnone (n : Nat) : ([] : List Deed).countP (Deed.seats socket n) = 0 := rfl
  cases hstep with
  | rest => exact .refl l
  | tell | answer => exact .still (fun _ => rfl) (fun _ => Nat.le_refl _) id
  | enroll free hok =>
    have hgames : l'.games = l.games := by
      rw [(enroll_eq_ok hok).1]
    refine .still hnone (fun n => Nat.le_of_eq ?_) fun haway => ?_
    · rw [hgames]
    · rw [gameOf_enroll hok, haway, ite_self]
  | hear now free => exact (receives_receive l now _).settles
  | forget =>
    refine .still hnone (fun _ => Nat.le_refl _) fun haway => ?_
    rw [gameOf_forget, haway, ite_self]
  -- the only step that may put the connection into a game; the answer was under way until now
  | @route n m games _ free hm =>
    obtain ⟨ht, hr⟩ := h.reports hm
    refine ⟨fun k => ?_, fun haway hseats => ?_⟩
    · rw [hr.unanswered]
      exact Nat.le_of_eq ht.unanswered
    · refine hr.away (h.gameId_isSome (ht.head ▸ List.mem_cons_self)) ?_ haway
      have hseat := List.countP_eq_zero.1 (hseats n) _ List.mem_cons_self
      simpa [Deed.seats] using hseat
  | pass socket answer ds hok =>
    refine .still hnone (fun n => ?_) id
    exact Nat.le_of_eq (Registry.unanswered_deliver hok (hds _ List.mem_cons_self))
  | play ds hok =>
    obtain ⟨s, result, ha, hp⟩ := Registry.act_eq_some hok
    exact .still hnone (fun _ => hp.unanswered_le ha) id
  | cancel =>
    refine .still hnone (fun n => Nat.le_of_eq ?_) id
    exact Registry.unanswered_congr (l.games.inbox_cancel n) (l.games.alike_cancel.underway n)

end Lobby

namespace Server

variable {s s' : Server} {mvs mvs' : List Move} {m : Message} {socket : SocketId}

theorem settles_run (h : s.lobby.Consistent) (hds : ∀ x ∈ s.duties, x.asks socket = false)
    (hrun : s.run mvs = some s') (hquiet : (s.deeds mvs).countP (Deed.asks socket) = 0) :
    s.lobby.Settles socket (s.deeds mvs) s'.lobby := by
  -- `hds` holds on after each move because none of them is a new request to join
  induction mvs generalizing s with
  | nil => exact Option.some.inj hrun ▸ .refl s.lobby
  | cons mv mvs ih =>
    obtain ⟨t, ht, hrun⟩ := run_cons.1 hrun
    have hstep := move_step ht
    rw [deeds_cons ht, List.countP_append, Nat.add_eq_zero_iff] at hquiet
    have hdeed : ∀ x ∈ s.deed? mv, x.asks socket = false := fun x hx =>
      Bool.of_not_eq_true (List.countP_eq_zero.1 hquiet.1 x (Option.mem_toList.2 hx))
    rw [deeds_cons ht]
    exact (h.settles hstep hds).trans
      (ih (h.step hstep) (h.unasked hstep hds hdeed) hrun hquiet.2)

theorem leave_move (hear : s.deed? (.act .hear) = some (.hear m)) (hk : m.kind = .leaveGame)
    (hs : m.socket = some socket) (hmv : s.move (.act .hear) = some s') :
    s'.duties = [.tell socket (s.lobby.leaveReply socket m)] ∧ s'.lobby.gameOf socket = none := by
  have hstep := move_step hmv
  rw [hear] at hstep
  generalize s.duties = ds, s'.lobby = l', s'.duties = ds' at hstep ⊢
  cases hstep with
  | hear now free hleft =>
    have hr := s.lobby.receives_receive now m
    generalize (s.lobby.receive now m).1 = l', (s.lobby.receive now m).2 = ds' at hr
    cases hr with
    | dropped unsent => cases hs.symm.trans unsent
    | created sent kind => cases hk.symm.trans kind
    | left sent kind =>
      obtain rfl := Option.some.inj (hs.symm.trans sent)
      exact ⟨rfl, Lobby.gameOf_setGame_none.trans (if_pos rfl)⟩
    | passed sent kind | answered sent kind => exact (kind hk).elim

/-- A player who has left is in no game until the lobby takes up another request of theirs for one,
or the answer to a request to join that was not answered yet when they left. There are no more such
answers than such requests. -/
theorem leave_lasts {s₀ s₁ s₂ : Server} (h₀ : s₀.Fresh) (hrun : s₀.run mvs = some s)
    (hear : s.deed? (.act .hear) = some (.hear m)) (hk : m.kind = .leaveGame)
    (hs : m.socket = some socket) (hmv : s.move (.act .hear) = some s₁)
    (hrun' : s₁.run mvs' = some s₂) (hquiet : (s₁.deeds mvs').countP (Deed.asks socket) = 0) :
    s₁.duties = [.tell socket (s.lobby.leaveReply socket m)] ∧
    s₁.lobby.gameOf socket = none ∧
    (∀ n, (s₁.deeds mvs').countP (Deed.seats socket n) + s₂.lobby.games.unanswered socket n ≤
      s₁.lobby.games.unanswered socket n) ∧
    ((∀ n, (s₁.deeds mvs').countP (Deed.seats socket n) = 0) → s₂.lobby.gameOf socket = none) ∧
    ((∀ n, s₁.lobby.games.unanswered socket n = 0) → s₂.lobby.gameOf socket = none) := by
  obtain ⟨hduties, haway⟩ := leave_move hear hk hs hmv
  have h := (consistent_run h₀.consistent hrun).step (move_step hmv)
  have hds : ∀ x ∈ s₁.duties, x.asks socket = false := by
    rw [hduties]
    intro x hx
    rw [List.mem_singleton.1 hx]
    rfl
  have hsettles := settles_run h hds hrun' hquiet
  refine ⟨hduties, haway, hsettles.answers, hsettles.away haway, fun hnone => ?_⟩
  refine hsettles.away haway fun n => ?_
  have hle := hsettles.answers n
  rw [hnone] at hle
  exact Nat.eq_zero_of_add_eq_zero_right (Nat.le_zero.1 hle)

/-- A player who is in no game yet asks to leave, while the game they asked for has not put them
into it. -/
def hasty : List Move := arrival ++ [.act .duty, .act (.line 0 .writeNext)] ++ write 0 "[3]"

/-- They are told that they have left, and then they are put into the game. -/
def overtaken : List Move := [.act .duty, .act (.game 0 .handle), .act (.route 0)]

theorem leave_overtaken : ∃ s s₁ s₂ m answer, vacant.Fresh ∧ vacant.run hasty = some s ∧
    s.deed? (.act .hear) = some (.hear m) ∧ m.kind = .leaveGame ∧ m.socket = some 1 ∧
    s.move (.act .hear) = some s₁ ∧ s₁.run overtaken = some s₂ ∧
    s₁.deeds overtaken = [.tell 1 (s.lobby.leaveReply 1 m), .route 0 answer] ∧
    (s.lobby.leaveReply 1 m).kind = .leaveGame ∧ answer.kind = .joinGame ∧
    s₁.lobby.gameOf 1 = none ∧ s₂.lobby.gameOf 1 = some 1 := by
  have hrun : vacant.run hasty = some _ := rfl
  exact ⟨_, _, _, _, _, fresh_vacant, hrun, rfl, rfl, rfl, rfl, rfl, rfl, rfl, rfl, rfl, rfl⟩

theorem leave_lasts_seating : ∃ s s₁ s₂ m, vacant.Fresh ∧
    vacant.run (arrival ++ seating ++ write 0 "[3]") = some s ∧
    s.deed? (.act .hear) = some (.hear m) ∧ m.kind = .leaveGame ∧ m.socket = some 1 ∧
    s.move (.act .hear) = some s₁ ∧ s₁.run [.act .duty, .wait 5] = some s₂ ∧
    (s₁.deeds [.act .duty, .wait 5]).countP (Deed.asks 1) = 0 ∧
    s.lobby.gameOf 1 = some 1 ∧ s₂.lobby.gameOf 1 = none := by
  have hrun : vacant.run (arrival ++ seating ++ write 0 "[3]") = some _ := rfl
  obtain ⟨-, -, -, haway, -⟩ := leave_lasts fresh_vacant hrun rfl rfl rfl rfl
    (rfl : run _ [.act .duty, .wait 5] = some _) rfl
  exact ⟨_, _, _, _, fresh_vacant, hrun, rfl, rfl, rfl, rfl, rfl, rfl, rfl, haway fun _ => rfl⟩

end Server

end TileRace
