import TileRace.Proofs.Server.Moves

namespace TileRace

/-- The game that a client follows after a message was written to it, and the session on behalf of
which it was sent there. -/
def heed (followed : Option (Option Nat × GameId)) (p : Option Nat × Message) :
    Option (Option Nat × GameId) :=
  match p.2.kind with
  | .joinGame => match p.2.gameId with
    | some id => some (p.1, id)
    | none => followed
  | .leaveGame => if p.2.gameId.isNone ∨ followed.map (·.2) = p.2.gameId then none else followed
  | _ => followed

section Heed

variable {p : Option Nat × Message} {ps : List (Option Nat × Message)}
  {followed : Option (Option Nat × GameId)} {v : Option Nat} {id : GameId}

theorem heed_game : (heed followed p).map (·.2) = track (followed.map (·.2)) p.2 := by
  rw [heed]
  split
  · rename_i hk
    simp only [track, hk]
    cases p.2.gameId <;> rfl
  · rename_i hk
    simp only [track, hk]
    split <;> rfl
  · rename_i hj hl
    exact (track_of_ne hj hl).symm

theorem mem_of_heed (h : ps.foldl heed followed = some (v, id)) :
    followed = some (v, id) ∨
      ∃ m, (v, m) ∈ ps ∧ m.kind = .joinGame ∧ m.gameId = some id := by
  induction ps generalizing followed with
  | nil => exact .inl h
  | cons p ps ih =>
    obtain h | ⟨m, hm, hkind⟩ := ih h
    · rw [heed] at h
      split at h
      · rename_i hk
        split at h
        · rename_i hid
          obtain ⟨rfl, rfl⟩ := Prod.mk.inj (Option.some.inj h)
          exact .inr ⟨p.2, List.mem_cons_self, hk, hid⟩
        · exact .inl h
      · split at h
        · cases h
        · exact .inl h
      · exact .inl h
    · exact .inr ⟨m, List.mem_cons_of_mem _ hm, hkind⟩

end Heed

namespace Link

/-- Of what was sent to a connection so much was written, and the rest waits. -/
structure Heeds (l : Link) (ps : List (Option Nat × Message)) (written : Nat) : Prop where
  bound : written ≤ ps.length
  tracked : ((ps.take written).foldl heed none).map (·.2) = l.tracked
  queue : l.accepting → l.queue = (ps.drop written).map (·.2)
  attuned : l.Attuned

variable {l l' : Link} {ps : List (Option Nat × Message)} {w now : Nat} {intake : Intake}
  {e : Option Event}

theorem Heeds.same (h : l.Heeds ps w) (hsame : l.SameQueue l') (hattuned : l'.Attuned) :
    l'.Heeds ps w where
  bound := h.bound
  tracked := h.tracked.trans hsame.tracked.symm
  queue ha := by
    obtain ⟨ha, hq⟩ := hsame.queue ha
    exact hq.trans (h.queue ha)
  attuned := hattuned

theorem Heeds.write (h : l.Heeds ps w) (ha : l.act now intake .writeNext = some (l', e)) :
    l'.Heeds ps (w + 1) := by
  obtain ⟨m, rest, hw, hq, hsame⟩ := act_writeNext ha
  have haccepting : l.accepting := by rw [h.attuned, hw]; rfl
  obtain ⟨p, later, hps, rfl, rfl⟩ := List.map_eq_cons_iff.1 ((h.queue haccepting).symm.trans hq)
  have hlt : w < ps.length := by
    have hlen := congrArg List.length hps
    rw [List.length_drop, List.length_cons] at hlen
    omega
  have hget : ps[w]? = some p := by
    rw [← Nat.add_zero w, ← List.getElem?_drop, hps]
    rfl
  refine Heeds.same (l := { l with
    queue := later.map (·.2), tracked := TileRace.track l.tracked p.2 })
    ⟨hlt, ?_, fun _ => ?_, h.attuned⟩ hsame (attuned_act h.attuned ha)
  · rw [List.take_add_one, hget, List.foldl_append]
    exact heed_game.trans (congrArg (track · p.2) h.tracked)
  · rw [List.drop_add_one_eq_tail_drop, hps, List.tail_cons]

theorem Heeds.act {a : Act} (h : l.Heeds ps w) (ha : l.act now intake a = some (l', e)) :
    l'.Heeds ps (w + [a].count .writeNext) := by
  by_cases hw : a = .writeNext
  · subst hw
    exact h.write ha
  · rw [List.count_singleton, if_neg (by simpa using hw)]
    exact h.same (sameQueue_act hw ha) (attuned_act h.attuned ha)

theorem Heeds.post (h : l.Heeds ps w) (ha : l.accepting) (v : Option Nat) (m : Message) :
    Heeds { l with queue := l.queue ++ [m] } (ps ++ [(v, m)]) w where
  bound := Nat.le_trans h.bound (by simp)
  tracked := by
    rw [List.take_append_of_le_length h.bound]
    exact h.tracked
  queue _ := by
    rw [List.drop_append_of_le_length h.bound, List.map_append, ← h.queue ha]
    rfl
  attuned := h.attuned

theorem heeds_start (socket : SocketId) (name : String) (t : Timing) (room : Nat)
    (client : Client) : Heeds { start socket name t room now with client } [] 0 :=
  ⟨Nat.le_refl _, rfl, fun _ => rfl, attuned_start _ _ _ _ _ _⟩

end Link

namespace Server

def source (v : Option Nat) : Move → Option Nat
  | .act (.route n) => some n
  | .act .hear | .act .enroll => none
  | _ => v

def queue (s : Server) (i : Nat) : List Message := ((s.link? i).map (·.queue)).getD []

def posted (s s' : Server) (i : Nat) : Move → List Message
  | .act .duty => (s'.queue i).drop (s.queue i).length
  | _ => []

/-- What is sent to a line in a run, and on behalf of which session. -/
def posts (s : Server) (i : Nat) (v : Option Nat) : List Move → List (Option Nat × Message)
  | [] => []
  | mv :: mvs => match s.move mv with
    | some s' => (s.posted s' i mv).map (v, ·) ++ s'.posts i (source v mv) mvs
    | none => []

/-- The session and the game that the client of a line follows after a run, by what was written to
it. -/
def lead (s : Server) (i : Nat) (mvs : List Move) : Option (Option Nat × GameId) :=
  ((s.posts i none mvs).take (mvs.count (.act (.line i .writeNext)))).foldl heed none

def Heeds (s : Server) (i : Nat) (ps : List (Option Nat × Message)) (written : Nat) : Prop :=
  match s.link? i with
  | some l => l.Heeds ps written
  | none => ps = [] ∧ written = 0

/-- A message to join a game was sent on behalf of the session that has its room, if that was not
deleted since. -/
def Vouches (s : Server) (deeds : List Deed) (v : Option Nat) (m : Message) : Prop :=
  m.kind = .joinGame → ∀ id, m.gameId = some id → ∃ n, v = some n ∧
    (s.lobby.games.rooms.get? id = some n ∨ ∃ o, .route n o ∈ deeds ∧ o.kind = .gameDeleted)

/-- Everything that was sent to a line, or is to be sent, is vouched for. -/
structure Vouched (s : Server) (deeds : List Deed) (v : Option Nat)
    (ps : List (Option Nat × Message)) : Prop where
  posts : ∀ p ∈ ps, s.Vouches deeds p.1 p.2
  duties : ∀ d ∈ s.duties, s.Vouches deeds v d.message

variable {s s' : Server} {mv : Move} {mvs : List Move} {i w : Nat} {v : Option Nat}
  {ps : List (Option Nat × Message)} {deeds : List Deed} {m : Message}

theorem posts_cons {t : Server} (h : s.move mv = some t) : s.posts i v (mv :: mvs) =
    (s.posted t i mv).map (v, ·) ++ t.posts i (source v mv) mvs := by
  rw [Server.posts, h]

theorem posted_of_eq (h : s'.queue i = s.queue i) : s.posted s' i mv = [] := by
  unfold posted
  split
  · rw [h, List.drop_length]
  · rfl

theorem posted_of_ne (h : mv ≠ .act .duty) : s.posted s' i mv = [] := by
  unfold posted
  split
  · exact (h rfl).elim
  · rfl

theorem count_of_ne {a : Act} (h : mv ≠ .act a) : [mv].count (.act a) = 0 := by
  rw [List.count_singleton, if_neg (by simpa using h)]

theorem mem_posted (h : s.move mv = some s') (hm : m ∈ s.posted s' i mv) :
    ∃ d ∈ s.duties, m = d.message := by
  have hbefalls := (turns_move h).befalls i
  unfold posted at hm
  split at hm
  · rw [queue, queue] at hm
    generalize s.link? i = o, s'.link? i = o' at hbefalls hm
    cases hbefalls with
    | none => cases hm
    | outside houtside =>
      rw [Option.map_some, Option.map_some, Option.getD_some, Option.getD_some] at hm
      obtain hsame | ⟨d, ds, -, due, -, -, rfl⟩ := houtside.same_or_queued
      · rw [hsame.queue, List.drop_length] at hm
        cases hm
      · rw [List.drop_left] at hm
        exact ⟨d, due ▸ List.mem_cons_self, List.mem_singleton.1 hm⟩
    | acts move => cases move
    | opened move => cases move
  · cases hm

theorem heeds_move (hs : s.Heeds i ps w) (h : s.move mv = some s') (v : Option Nat) :
    s'.Heeds i (ps ++ (s.posted s' i mv).map (v, ·))
      (w + [mv].count (.act (.line i .writeNext))) := by
  have hbefalls := (turns_move h).befalls i
  have hposted (hq : s'.queue i = s.queue i) : ps ++ (s.posted s' i mv).map (v, ·) = ps := by
    rw [posted_of_eq hq]
    exact List.append_nil _
  rw [Heeds] at hs ⊢
  generalize ho : s.link? i = o, ho' : s'.link? i = o' at hbefalls hs ⊢
  cases hbefalls with
  | none idle =>
    rw [count_of_ne (idle _), Nat.add_zero]
    rwa [hposted (by rw [queue, queue, ho, ho'])]
  | outside houtside idle =>
    rw [count_of_ne (idle _), Nat.add_zero]
    obtain hsame | ⟨d, ds, rfl, due, -, accepting, rfl⟩ := houtside.same_or_queued
    · rw [hposted (by rw [queue, queue, ho, ho']; exact hsame.queue)]
      exact hs.same hsame.sameQueue (hsame.attuned hs.attuned)
    · have hp : s.posted s' i (.act .duty) = [d.message] := by
        rw [posted, queue, queue, ho, ho']
        exact List.drop_left
      rw [hp]
      exact hs.post accepting v _
  | @acts a e l l' move ha =>
    subst move
    have hcount : [Move.act (.line i a)].count (.act (.line i .writeNext)) =
        [a].count .writeNext := by simp [List.count_singleton]
    have hp : s.posted s' i (.act (.line i a)) = [] := rfl
    rw [hp, List.map_nil, List.append_nil, hcount]
    exact hs.act ha
  | opened move =>
    obtain ⟨rfl, rfl⟩ := hs
    rw [posted_of_ne (by simp [move]), count_of_ne (by simp [move])]
    exact Link.heeds_start _ _ _ _ _

theorem heeds_run (hs : s.Heeds i ps w) (hrun : s.run mvs = some s') (v : Option Nat) :
    s'.Heeds i (ps ++ s.posts i v mvs) (w + mvs.count (.act (.line i .writeNext))) := by
  -- what was sent and written so far is carried along
  induction mvs generalizing s ps w v with
  | nil =>
    obtain rfl := Option.some.inj hrun
    rwa [Server.posts, List.append_nil]
  | cons mv mvs ih =>
    obtain ⟨t, ht, hrun⟩ := run_cons.1 hrun
    have hnext := ih (heeds_move hs ht v) hrun (source v mv)
    rwa [List.append_assoc, ← posts_cons ht, Nat.add_assoc, ← List.count_append] at hnext

theorem Fresh.heeds (h : s.Fresh) (i : Nat) : s.Heeds i [] 0 := by
  rw [Server.Heeds, h.link?]
  exact ⟨rfl, rfl⟩

theorem lead_game {s₀ : Server} {l : Link} (h₀ : s₀.Fresh) (hrun : s₀.run mvs = some s)
    (hl : s.link? i = some l) : (s₀.lead i mvs).map (·.2) = l.tracked := by
  have hs := heeds_run (h₀.heeds i) hrun none
  rw [Server.Heeds, hl] at hs
  have htracked := hs.tracked
  rwa [List.nil_append, Nat.zero_add] at htracked

theorem Fresh.vouched (h : s.Fresh) : s.Vouched [] none [] := by
  refine ⟨fun p hp => (by cases hp), fun d hd => ?_⟩
  rw [h.duties] at hd
  cases hd

theorem Vouches.move (hv : s.Vouches deeds v m) (hl : s.lobby.Consistent)
    (h : s.move mv = some s') : s'.Vouches (deeds ++ (s.deed? mv).toList) v m := by
  intro hk id hid
  obtain ⟨n, rfl, hroom | ⟨o, ho, hdeleted⟩⟩ := hv hk id hid
  · obtain hroom | ⟨o, ho, hdeleted⟩ := (hl.change (move_step h)).keeps_room hroom
    · exact ⟨n, rfl, .inl hroom⟩
    · refine ⟨n, rfl, .inr ⟨o, List.mem_append_right _ ?_, hdeleted⟩⟩
      exact Option.mem_toList.2 ho
  · exact ⟨n, rfl, .inr ⟨o, List.mem_append_left _ ho, hdeleted⟩⟩

theorem vouches_of_ne (h : m.kind ≠ .joinGame) : s.Vouches deeds v m := fun hk => (h hk).elim

theorem unjoined_receives {l l' : Lobby} {now : Nat} {ds : List Duty} (h : l.Receives now m l' ds)
    {d : Duty} (hd : d ∈ ds) : d.message.kind ≠ .joinGame := by
  cases h with
  | dropped => cases hd
  | created sent kind game | passed sent kind found =>
    rw [List.mem_singleton.1 hd]
    exact (Lobby.kind_refusal _ _).1
  | left =>
    rw [List.mem_singleton.1 hd]
    exact nofun
  | answered sent kind joins =>
    rw [List.mem_singleton.1 hd]
    exact joins

theorem vouches_report {n : Nat} {games : Registry} {l' : Lobby} {ds : List Duty}
    (hl : s.lobby.Consistent) (ht : s.lobby.games.Takes n m games)
    (hr : Lobby.Reports { s.lobby with games } m l' ds) (hs : s'.lobby = l') {d : Duty}
    (hd : d ∈ ds) : s'.Vouches deeds (some n) d.message := by
  cases hr with
  | news kind news =>
    obtain ⟨k, o, rfl, ho⟩ := news d hd
    exact vouches_of_ne (by simp [Duty.message, ho])
  | deleted kind about deletes =>
    obtain hd | hd := List.mem_append.1 hd
    · obtain ⟨k, -, rfl⟩ := List.mem_map.1 hd
      exact vouches_of_ne fun hk => by cases hk
    · obtain ⟨k, o, rfl, ho⟩ := Lobby.kind_broadcastInfos _ hd
      exact vouches_of_ne (by simp [Duty.message, ho])
  | routed lasting quiet routes =>
    obtain ⟨k, -, rfl⟩ := List.mem_map.1 hd
    intro hk id hid
    obtain ⟨id', hid', hroom, -⟩ := hl.underway (ht.head ▸ List.mem_cons_self : m ∈ _)
    obtain rfl := Option.some.inj (hid.symm.trans hid')
    refine ⟨n, rfl, .inl ?_⟩
    rw [hs, routes.moved.frame]
    exact ht.rooms ▸ hroom

theorem Vouched.move (hv : s.Vouched deeds v ps) (hl : s.lobby.Consistent)
    (h : s.move mv = some s') : s'.Vouched (deeds ++ (s.deed? mv).toList) (source v mv)
      (ps ++ (s.posted s' i mv).map (v, ·)) := by
  refine ⟨fun p hp => ?_, fun d hd => ?_⟩
  · obtain hp | hp := List.mem_append.1 hp
    · exact (hv.posts p hp).move hl h
    · obtain ⟨m, hm, rfl⟩ := List.mem_map.1 hp
      obtain ⟨d, hd, rfl⟩ := mem_posted h hm
      exact (hv.duties d hd).move hl h
  · by_cases hear : mv = .act .hear
    · subst hear
      obtain ⟨e, -, -, ⟨m, -, -, hds⟩ | ⟨-, hds, -⟩⟩ := hear_move h
      · rw [hds] at hd
        exact vouches_of_ne (unjoined_receives (s.lobby.receives_receive s.now m) hd)
      · rw [hds] at hd
        cases hd
    by_cases duty : mv = .act .duty
    · subst duty
      obtain ⟨d', hds, -⟩ := duty_move h
      exact (hv.duties d (hds ▸ List.mem_cons_of_mem _ hd)).move hl h
    cases assigns_of_ne hl h hear duty with
    | kept enroll route same =>
      have hsource : source v mv = v := by
        unfold source
        split
        · exact (route _ rfl).elim
        · exact (hear rfl).elim
        · exact (enroll rfl).elim
        · rfl
      rw [hsource]
      exact (hv.duties d (same ▸ hd)).move hl h
    | enrolled move free infos =>
      obtain ⟨k, m, rfl, hm⟩ := infos d hd
      exact vouches_of_ne (by simp [Duty.message, hm])
    | routed move free takes reports =>
      subst move
      exact vouches_report hl takes reports rfl hd

theorem vouched_run (hv : s.Vouched deeds v ps) (hl : s.lobby.Consistent)
    (hrun : s.run mvs = some s') :
    ∃ v', s'.Vouched (deeds ++ s.deeds mvs) v' (ps ++ s.posts i v mvs) := by
  -- what was done and sent so far is carried along
  induction mvs generalizing s deeds v ps with
  | nil =>
    obtain rfl := Option.some.inj hrun
    refine ⟨v, ?_⟩
    rwa [Server.posts, Server.deeds, List.append_nil, List.append_nil]
  | cons mv mvs ih =>
    obtain ⟨t, ht, hrun⟩ := run_cons.1 hrun
    obtain ⟨v', hnext⟩ := ih (hv.move (i := i) hl ht) (hl.step (move_step ht)) hrun
    refine ⟨v', ?_⟩
    rw [posts_cons ht, deeds_cons ht, ← List.append_assoc, ← List.append_assoc]
    exact hnext

/-- The client of a line follows the session that has the room of its game, if that was not deleted
before. -/
theorem lead_room {s₀ : Server} {id : GameId} (h₀ : s₀.Fresh) (hrun : s₀.run mvs = some s)
    (h : s₀.lead i mvs = some (v, id)) : ∃ n, v = some n ∧
      (s.lobby.games.rooms.get? id = some n ∨
        ∃ o, .route n o ∈ s₀.deeds mvs ∧ o.kind = .gameDeleted) := by
  obtain ⟨v', hv⟩ := vouched_run (i := i) h₀.vouched h₀.consistent hrun
  obtain h | ⟨m, hm, hk, hid⟩ := mem_of_heed h
  · cases h
  · exact hv.posts _ (List.mem_of_mem_take hm) hk id hid

end Server

end TileRace
