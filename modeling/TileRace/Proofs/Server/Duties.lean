import TileRace.Proofs.Connection.Writing
import TileRace.Proofs.Server.Moves
import TileRace.Proofs.Server.Production

namespace TileRace

namespace Server

variable {s s' t : Server} {mv : Move} {mvs : List Move} {m : Message} {k : SocketId} {i n : Nat}

/-- Nothing is done that somebody outside would have to do, and the lobby takes up nothing. -/
def Move.alone : Move → Bool
  | .act (.line ..) | .act (.game ..) | .act .duty | .wait _ => true
  | _ => false

/-- All connections that take messages write them, and the inboxes have room for some. -/
structure Flows (s : Server) : Prop where
  attuned {i l} : s.link? i = some l → l.Attuned
  capacity : 0 < s.capacity
  inboxes : 0 < s.lobby.games.capacity

theorem keeps_alone (h : s.move mv = some s') (hmv : mv.alone) :
    s'.cancelled = s.cancelled ∧ s'.closed = s.closed := by
  cases does_move h with
  | passes | loses | queues | acts | plays | waits => exact ⟨rfl, rfl⟩
  | touches =>
    rw [change_eq]
    exact ⟨rfl, rfl⟩
  | _ => cases hmv

theorem attuned_move (hs : ∀ {i l}, s.link? i = some l → l.Attuned) (h : s.move mv = some s')
    {l' : Link} (hl' : s'.link? i = some l') : l'.Attuned := by
  have hbefalls := (turns_move h).befalls i
  have hold := @hs i
  rw [hl'] at hbefalls
  generalize s.link? i = o at hold hbefalls
  cases hbefalls with
  | outside houtside =>
    have hattuned := hold rfl
    obtain hsame | ⟨_, _, -, -, -, -, rfl⟩ := houtside.same_or_queued
    · exact hsame.attuned hattuned
    · exact hattuned
  | acts move hact => exact Link.attuned_act (hold rfl) hact
  | opened => exact Link.attuned_start ..

theorem capacity_receive (l : Lobby) (now : Nat) (m : Message) :
    (l.receive now m).1.games.capacity = l.games.capacity := by
  have hr := l.receives_receive now m
  generalize (l.receive now m).1 = l', (l.receive now m).2 = ds at hr ⊢
  cases hr with
  | dropped | left | passed | answered => rfl
  | created sent kind game =>
    obtain ⟨session, hopens⟩ := Registry.create_eq_ok game
    change Registry.capacity _ = _
    rw [hopens.registry]

theorem capacity_report (l : Lobby) (m : Message) :
    (l.report m).1.games.capacity = l.games.capacity := by
  obtain h | ⟨id, h⟩ := l.games_report m
  · rw [h]
  · rw [h, Registry.remove]
    split <;> rfl

theorem capacity_deliver {r games : Registry} (h : r.deliver n m = .accepted games) :
    games.capacity = r.capacity := by
  rw [Registry.deliver] at h
  split at h
  · cases h
  · split at h
    · cases h
    split at h
    · cases h
      rfl
    · cases h

theorem capacity_step {l l' : Lobby} {ds ds' : List Duty} {d : Option Deed}
    (h : l.Step ds d l' ds') : l'.games.capacity = l.games.capacity := by
  cases h with
  | rest | forget | tell | answer | cancel => rfl
  | enroll free hok => rw [(Lobby.enroll_eq_ok hok).1]
  | hear now => exact capacity_receive l now _
  | @route n m games _ free hm =>
    obtain ⟨_, -, he⟩ := Option.map_eq_some_iff.1 hm
    refine (capacity_report _ m).trans ?_
    rw [← (Prod.mk.inj he).2]
  | pass socket answer ds hok => exact capacity_deliver hok
  | play ds hok =>
    rw [Registry.act] at hok
    split at hok
    · cases hok
    · obtain ⟨result, -, rfl⟩ := Option.map_eq_some_iff.1 hok
      rfl

theorem Flows.move (hs : s.Flows) (h : s.move mv = some s') : s'.Flows where
  attuned := attuned_move hs.attuned h
  capacity := (turns_move h).capacity.symm ▸ hs.capacity
  inboxes := (capacity_step (move_step h)).symm ▸ hs.inboxes

theorem Fresh.flows (h : s.Fresh) (hcapacity : 0 < s.capacity)
    (hinboxes : 0 < s.lobby.games.capacity) : s.Flows where
  attuned hl := by simp [h.link?] at hl
  capacity := hcapacity
  inboxes := hinboxes

theorem Flows.run (hs : s.Flows) (hrun : s.run mvs = some s') : s'.Flows :=
  run_induction (fun hs h => hs.move h) hs hrun

theorem findIdx?_set {lines : List Line} {l l' : Link} (hl : lines[i]? = some (.opened l))
    (hk : l'.socket = l.socket) :
    (lines.set i (.opened l')).findIdx? (isFor k) = lines.findIdx? (isFor k) := by
  have hfor (xs : List Line) : xs.findIdx? (isFor k) = (xs.map (isFor k)).findIdx? id := by
    rw [List.findIdx?_map]
    rfl
  have hsame : (lines.set i (.opened l')).map (isFor k) = lines.map (isFor k) := by
    refine List.ext_getElem? fun j => ?_
    rw [List.getElem?_map, List.getElem?_map, List.getElem?_set]
    split
    · rename_i hij
      subst hij
      rw [if_pos (List.getElem?_eq_some_iff.1 hl).1, hl]
      simp only [Option.map_some, isFor, hk]
    · rfl
  rw [hfor, hfor, hsame]

theorem line_possible {l l' : Link} {a : Link.Act} {e : Option Event}
    (hj : s.lines.findIdx? (isFor k) = some i) (hl : s.link? i = some l)
    (ha : l.act s.now s.intake a = some (l', e)) : ∃ t, s.move (.act (.line i a)) = some t ∧
      t.duties = s.duties ∧ t.lobby = s.lobby ∧ t.lines.findIdx? (isFor k) = some i ∧
      t.link? i = some l' := by
  have hline := link?_eq_some.1 hl
  refine ⟨{ s.setLine i (.opened l') with events := s.events ++ e.toList }, ?_, rfl, rfl, ?_, ?_⟩
  · rw [move, if_neg (by simp [searches]), act, hline]
    simp [ha]
  · exact (findIdx?_set hline (Link.identity_act ha).socket).trans hj
  · exact (link?_set hline).trans (if_pos rfl)

/-- `t` is `s` after some moves that neither the lobby nor anybody outside makes. -/
def Awaits (s t : Server) : Prop :=
  ∃ mvs, (∀ mv ∈ mvs, mv.alone) ∧ s.run mvs = some t

theorem Awaits.refl (s : Server) : s.Awaits s := ⟨[], by simp, rfl⟩

theorem Awaits.cons {u : Server} (ha : mv.alone) (h : s.move mv = some t) (h' : t.Awaits u) :
    s.Awaits u := by
  obtain ⟨mvs, hmvs, hrun⟩ := h'
  exact ⟨mv :: mvs, List.forall_mem_cons.2 ⟨ha, hmvs⟩, run_cons.2 ⟨t, h, hrun⟩⟩

theorem Awaits.trans {u : Server} (h : s.Awaits t) (h' : t.Awaits u) : s.Awaits u := by
  obtain ⟨mvs, hmvs, hrun⟩ := h
  obtain ⟨mvs', hmvs', hrun'⟩ := h'
  refine ⟨mvs ++ mvs', fun mv hmv => ?_, by rw [run_append, hrun]; exact hrun'⟩
  exact (List.mem_append.1 hmv).elim (hmvs mv) (hmvs' mv)

theorem tell_possible {l : Link} (hj : s.lines.findIdx? (isFor k) = some i)
    (hl : s.link? i = some l) (hroom : l.accepting → l.queue.length < s.capacity) (m : Message) :
    (s.tell k m).isSome := by
  rw [tell, hj]
  dsimp only
  rw [link?_eq_some.1 hl]
  dsimp only
  split
  · rfl
  · rename_i ha
    rw [if_pos (hroom (by simpa using ha))]
    rfl

theorem connection_opens (hs : s.Flows) {l : Link} (hj : s.lines.findIdx? (isFor k) = some i)
    (hl : s.link? i = some l) (m : Message) : ∃ t, s.Awaits t ∧ t.duties = s.duties ∧
      t.lobby = s.lobby ∧ (t.tell k m).isSome := by
  induction hn : l.queue.length using Nat.strongRecOn generalizing s l with
  | ind n ih =>
    by_cases hroom : l.accepting → l.queue.length < s.capacity
    · exact ⟨s, .refl s, rfl, rfl, tell_possible hj hl hroom m⟩
    obtain ⟨ha, hfull⟩ := Classical.not_imp.1 hroom
    have hwrites : l.writer.over = false := by simpa using (hs.attuned hl).symm.trans ha
    cases hw : l.writer with
    | closing | stopped =>
      rw [hw] at hwrites
      cases hwrites
    | ready =>
      obtain ⟨q, rest, hq⟩ : ∃ q rest, l.queue = q :: rest :=
        List.exists_cons_of_ne_nil fun hnil => hfull (by rw [hnil]; exact hs.capacity)
      have hact : l.act s.now s.intake .writeNext =
          some ({ l with queue := rest }.writeMessage s.now q, none) := by
        simp only [Link.act, hw, hq]
      obtain ⟨t, ht, hduties, hlobby, hj', hl'⟩ := line_possible hj hl hact
      obtain ⟨q', rest', -, hq', hsame⟩ := Link.act_writeNext hact
      obtain ⟨rfl, rfl⟩ := List.cons.inj (hq.symm.trans hq')
      generalize Link.writeMessage _ _ _ = l' at hl' hsame
      by_cases ha' : l'.accepting
      · have hlt : l'.queue.length < n := by
          rw [(hsame.queue ha').2, ← hn, hq]
          exact Nat.lt_succ_self _
        obtain ⟨u, hu, hduties', hlobby', hsome⟩ := ih _ hlt (hs.move ht) hj' hl' rfl
        exact ⟨u, .cons rfl ht hu, hduties'.trans hduties, hlobby'.trans hlobby, hsome⟩
      · exact ⟨t, .cons rfl ht (.refl t), hduties, hlobby,
          tell_possible hj' hl' (fun h => (ha' h).elim) m⟩
    | writing d =>
      have hwait : s.move (.wait (d - s.now)) = some { s with now := s.now + (d - s.now) } := rfl
      have hact : l.act (s.now + (d - s.now)) s.intake .writeTimeout =
          some (l.beginClose (s.now + (d - s.now)), none) := by
        simp only [Link.act, hw]
        rw [if_pos (.inl (by omega))]
      obtain ⟨t, ht, hduties, hlobby, hj', hl'⟩ :=
        line_possible (s := { s with now := s.now + (d - s.now) }) hj hl hact
      refine ⟨t, .cons rfl hwait (.cons rfl ht (.refl t)), hduties, hlobby,
        tell_possible hj' hl' ?_ m⟩
      rw [(l.closing_beginClose _).accepting]
      exact fun h => absurd h Bool.false_ne_true

theorem tell_opens (hs : s.Flows) (k : SocketId) (m : Message) : ∃ t, s.Awaits t ∧
    t.duties = s.duties ∧ t.lobby = s.lobby ∧ (t.tell k m).isSome := by
  cases hj : s.lines.findIdx? (isFor k) with
  | none => exact ⟨s, .refl s, rfl, rfl, by rw [tell, hj]; rfl⟩
  | some i =>
    cases hl : s.link? i with
    | some l => exact connection_opens hs hj hl m
    | none =>
      refine ⟨s, .refl s, rfl, rfl, ?_⟩
      rw [tell, hj]
      dsimp only
      split
      · rename_i l hl'
        cases hl.symm.trans (link?_eq_some.2 hl')
      · rfl

theorem inbox_opens (hs : s.Flows) (n : Nat) (m : Message) : ∃ t, s.Awaits t ∧
    t.duties = s.duties ∧ t.lobby.games.deliver n m ≠ .full := by
  induction hlen : (s.lobby.games.inbox n).length using Nat.strongRecOn generalizing s with
  | ind len ih =>
    by_cases hfull : s.lobby.games.deliver n m = .full
    case neg => exact ⟨s, .refl s, rfl, hfull⟩
    rw [Registry.deliver] at hfull
    split at hfull
    · cases hfull
    rename_i session hn
    split at hfull
    · cases hfull
    rename_i hruns
    split at hfull
    · cases hfull
    rename_i hroom
    obtain ⟨q, rest, hq⟩ : ∃ q rest, session.inbox = q :: rest :=
      List.exists_cons_of_ne_nil fun hnil => hroom (by rw [hnil]; exact hs.inboxes)
    have hold : s.lobby.games.inbox n = q :: rest := by rw [Registry.inbox, hn, ← hq]; rfl
    obtain ⟨games, hgames⟩ :=
      Registry.handle_possible hn (Bool.eq_false_iff.2 hruns) hq s.now
    have ht : s.move (.act (.game n .handle)) =
        some { s with lobby := { s.lobby with games } } := by
      rw [move, if_neg (by simp [searches]), act, hgames]
      rfl
    have hlt : ({ s with lobby := { s.lobby with games } }.lobby.games.inbox n).length < len := by
      rw [← hlen]
      obtain ⟨q', rest', -, hold', hnew⟩ | hnew := inbox_play ht
      · rw [hnew, hold']
        exact Nat.lt_succ_self _
      · rw [hnew, hold]
        exact Nat.zero_lt_succ _
    obtain ⟨u, hu, hduties, hopen⟩ := ih _ hlt (hs.move ht) rfl
    exact ⟨u, .cons rfl ht hu, hduties, hopen⟩

theorem duty_possible {d : Duty} {ds : List Duty} (hds : s.duties = d :: ds)
    (h : (s.perform d).isSome) : ∃ t, s.move (.act .duty) = some t ∧ t.duties = ds := by
  obtain ⟨t, ht⟩ := Option.isSome_iff_exists.1 h
  refine ⟨{ t with duties := ds }, ?_, rfl⟩
  rw [move, if_neg (by simp [searches]), act, hds]
  simp [ht]

theorem duty_opens (hs : s.Flows) {d : Duty} {ds : List Duty} (hds : s.duties = d :: ds) :
    ∃ t, s.Awaits t ∧ t.duties = ds := by
  have hdone {t : Server} (hduties : t.duties = s.duties) (h : (t.perform d).isSome)
      (ht : s.Awaits t) : ∃ t, s.Awaits t ∧ t.duties = ds := by
    obtain ⟨u, hu, hrest⟩ := duty_possible (hduties.trans hds) h
    exact ⟨u, ht.trans (.cons rfl hu (.refl u)), hrest⟩
  cases d with
  | tell k m =>
    obtain ⟨t, ht, hduties, -, hsome⟩ := tell_opens hs k m
    exact hdone hduties hsome ht
  | pass n m k answer =>
    obtain ⟨t, ht, hduties, hopen⟩ := inbox_opens hs n m
    cases hd : t.lobby.games.deliver n m with
    | full => exact (hopen hd).elim
    | accepted games =>
      refine hdone hduties ?_ ht
      rw [perform, hd]
      rfl
    | ended =>
      obtain ⟨mvs, -, hrun⟩ := id ht
      obtain ⟨u, hu, hduties', hlobby, hsome⟩ := tell_opens (hs.run hrun) k answer
      refine hdone (hduties'.trans hduties) ?_ (ht.trans hu)
      rw [perform, hlobby, hd]
      exact hsome

/-- The lobby gets done all that it has to do. -/
theorem duties_open (hs : s.Flows) : ∃ t, s.Awaits t ∧ t.duties = [] := by
  induction hds : s.duties generalizing s with
  | nil => exact ⟨s, .refl s, hds⟩
  | cons d ds ih =>
    obtain ⟨t, ht, hrest⟩ := duty_opens hs hds
    obtain ⟨mvs, -, hrun⟩ := id ht
    obtain ⟨u, hu, hfree⟩ := ih (hs.run hrun) hrest
    exact ⟨u, ht.trans hu, hfree⟩

end Server

end TileRace
