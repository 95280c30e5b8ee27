import TileRace.Proofs.Game.Farewell
import TileRace.Proofs.Server.Parting

namespace TileRace

namespace Server

variable {s s' t : Server} {mv : Move} {mvs : List Move} {m : Message} {n : Nat} {id : GameId}
  {k : SocketId} {seen : SocketId → Option GameId}

def notices (s : Server) (mvs : List Move) (id : GameId) (k : SocketId) : Nat :=
  (told k (s.deeds mvs)).countP (isLeave id)

/-- Throughout a run the connection stays open, and is in no other game. -/
def Abides (s : Server) (mvs : List Move) (id : GameId) (k : SocketId) : Prop :=
  ∀ before t, before <+: mvs → s.run before = some t → ¬ t.lobby.Strays id k

theorem abides_nil (h : ¬ s.lobby.Strays id k) : s.Abides [] id k := by
  intro before t hb hrun
  obtain rfl := List.prefix_nil.1 hb
  exact Option.some.inj hrun ▸ h

theorem Abides.cons (h : ¬ s.lobby.Strays id k) (hmv : s.move mv = some t)
    (ht : t.Abides mvs id k) : s.Abides (mv :: mvs) id k := by
  intro before u hb hrun
  cases before with
  | nil => exact Option.some.inj hrun ▸ h
  | cons mv' before =>
    obtain ⟨rfl, hrest⟩ := List.cons_prefix_cons.1 hb
    obtain ⟨t', ht', hrun⟩ := run_cons.1 hrun
    obtain rfl := Option.some.inj (hmv.symm.trans ht')
    exact ht before u hrest hrun

theorem Abides.next (h : s.Abides (mv :: mvs) id k) (hmv : s.move mv = some t) :
    t.Abides mvs id k := fun before u hb hrun =>
  h (mv :: before) u ((List.prefix_cons_inj mv).2 hb) (run_cons.2 ⟨t, hmv, hrun⟩)

theorem Abides.of_prefix {mvs' : List Move} (h : s.Abides mvs' id k) (hp : mvs <+: mvs') :
    s.Abides mvs id k := fun before t hb => h before t (hb.trans hp)

theorem notices_append (hrun : s.run mvs = some t) (mvs' : List Move) :
    s.notices (mvs ++ mvs') id k = s.notices mvs id k + t.notices mvs' id k := by
  rw [notices, deeds_append hrun, told_append, List.countP_append, notices, notices]

theorem notices_cons (h : s.move mv = some t) : s.notices (mv :: mvs) id k =
    (told k (s.deed? mv).toList).countP (isLeave id) + t.notices mvs id k := by
  rw [notices, deeds_cons h, told_append, List.countP_append, notices]

theorem over_of_ends {a : Session.Act} {g : Session} {bye : List Message}
    (hc : s.lobby.Consistent) (hg : s.lobby.games.sessions.get? n = some g)
    (hends : g.Ends s.now a bye) (hend : s.move (.act (.game n a)) = some s') :
    s'.lobby.games.Over n ∧
      s'.lobby.games.underway n = s.lobby.games.underway n ++ (bye ++ [g.game.deleted]) := by
  obtain ⟨games, hgames, rfl⟩ := Option.map_eq_some_iff.1 (act_of_move hend)
  obtain ⟨g', result, hact, hplays⟩ := Registry.act_eq_some hgames
  obtain rfl := Option.some.inj (hg.symm.trans hplays.session)
  obtain rfl := Option.some.inj (hends.act_eq.symm.trans hact)
  refine ⟨⟨?_, ?_⟩, ?_⟩
  · rw [hplays.started]
    exact hc.started (hc.lodged (congrArg (Option.map _) hg))
  · rw [hplays.game?, if_pos rfl]
    rfl
  · rw [hplays.underway, if_pos rfl]

theorem over_run (hc : s.lobby.Consistent) (h : s.lobby.games.Over n)
    (hrun : s.run mvs = some s') : s'.lobby.games.Over n ∧
      s.lobby.games.underway n = routed n (s.deeds mvs) ++ s'.lobby.games.underway n := by
  induction mvs generalizing s with
  | nil =>
    obtain rfl := Option.some.inj hrun
    exact ⟨h, rfl⟩
  | cons mv mvs ih =>
    obtain ⟨t, ht, hrun⟩ := run_cons.1 hrun
    obtain ⟨hover, hsaid⟩ := h.change (hc.change (move_step ht))
    obtain ⟨hover', hsaid'⟩ := ih (hc.step (move_step ht)) hover hrun
    refine ⟨hover', ?_⟩
    rw [hsaid, hsaid', deeds_cons ht, routed_append, List.append_assoc]

theorem parting_of_ends {s₁ : Server} {a : Session.Act} {g : Session} {bye : List Message}
    (hc : s.lobby.Consistent) (hg : s.lobby.games.sessions.get? n = some g)
    (hends : g.Ends s.now a bye) (hend : s.move (.act (.game n a)) = some s')
    (hrun : s'.run mvs = some s₁)
    (hearlier : routed n (s'.deeds mvs) = s.lobby.games.underway n) :
    s₁.lobby.games.underway n = bye ++ [g.game.deleted] ∧
      s₁.lobby.games.Parting n g.game.id := by
  obtain ⟨hover, hunder⟩ := over_of_ends hc hg hends hend
  have hc' := hc.step (move_step hend)
  obtain ⟨hover₁, hunder₁⟩ := over_run hc' hover hrun
  rw [hunder, hearlier] at hunder₁
  have hlast := (List.append_cancel_left hunder₁).symm
  refine ⟨hlast, hover₁, ?_, fun m hm => ?_⟩
  · have hmem : g.game.deleted ∈ s₁.lobby.games.underway n :=
      hlast ▸ List.mem_append_right _ List.mem_cons_self
    obtain ⟨id, hid, hroom, -⟩ := (consistent_run hc' hrun).underway hmem
    obtain rfl := Option.some.inj hid
    exact hroom
  · rw [hlast] at hm
    obtain hm | hm := List.mem_append.1 hm
    · exact .inl (hends.mem_bye hm)
    · exact .inr (by rw [List.mem_singleton.1 hm]; rfl)

theorem deed?_route (h : s.move (.act (.route n)) = some s') : ∃ m,
    s.deed? (.act (.route n)) = some (.route n m) ∧ (s.lobby.games.underway n).head? = some m := by
  obtain ⟨-, h⟩ := Option.ite_none_right_eq_some.1 (act_of_move h)
  obtain ⟨⟨m, games⟩, hm, -⟩ := Option.map_eq_some_iff.1 h
  obtain ⟨m', hlookup, he⟩ := Option.map_eq_some_iff.1 hm
  obtain ⟨rfl, -⟩ := Prod.mk.inj he
  refine ⟨m', ?_, ?_⟩
  · rw [deed?, hlookup]
    rfl
  · rw [(Registry.takeReport_eq_some hm).head]
    rfl

theorem pays_run (hc : s.lobby.Consistent) (ht : s.lobby.Tracks seen s.duties)
    (hp : s.lobby.games.Parting n id) (hrun : s.run mvs = some s')
    (hlast : ∀ m ∈ routed n (s.deeds mvs), m.kind ≠ .gameDeleted) :
    s'.lobby.games.Parting n id ∧
    s.notices mvs id k + s'.lobby.due s'.duties id k ≤ s.lobby.due s.duties id k ∧
    (s.Abides mvs id k →
      s.notices mvs id k + s'.lobby.due s'.duties id k = s.lobby.due s.duties id k) := by
  induction mvs generalizing s seen with
  | nil =>
    obtain rfl := Option.some.inj hrun
    have hnone : s.notices [] id k = 0 := rfl
    rw [hnone, Nat.zero_add]
    exact ⟨hp, Nat.le_refl _, fun _ => rfl⟩
  | cons mv mvs ih =>
    obtain ⟨t, hmv, hrun⟩ := run_cons.1 hrun
    have hstep := move_step hmv
    rw [deeds_cons hmv, routed_append] at hlast
    have hp' : t.lobby.games.Parting n id := hp.change (hc.change hstep) fun m hm => by
      refine hlast m (List.mem_append_left _ ?_)
      rw [hm, Option.toList, routed_route, if_pos rfl]
      exact List.mem_singleton.2 rfl
    have hpays := hstep.pays hc ht hp k
    obtain ⟨hparting, hmost, hexact⟩ := ih (hc.step hstep) (ht.step hc hstep) hp' hrun
      fun m hm => hlast m (List.mem_append_right _ hm)
    rw [notices_cons hmv]
    refine ⟨hparting, ?_, fun h => ?_⟩
    · have := hpays.most
      omega
    · have hnow := hpays.exact (h [mv] t ((List.prefix_cons_inj mv).2 List.nil_prefix)
        (run_single hmv))
      have hlater := hexact (h.next hmv)
      omega

theorem deed?_eq_none (hmv : mv.takesUp = false) (hduty : mv ≠ .act .duty) :
    s.deed? mv = none := by
  cases mv with
  | act a =>
    cases a with
    | hear | route => cases hmv
    | duty => exact (hduty rfl).elim
    | _ => rfl
  | _ => rfl

theorem told_of_tells (hc : s.lobby.Consistent) (hds : ∀ d ∈ s.duties, ∃ k o, d = .tell k o)
    (hrun : s.run mvs = some s') (hmvs : ∀ mv ∈ mvs, mv.takesUp = false) (k : SocketId) :
    owed k s.duties = told k (s.deeds mvs) ++ owed k s'.duties := by
  induction mvs generalizing s with
  | nil => exact Option.some.inj hrun ▸ rfl
  | cons mv mvs ih =>
    obtain ⟨t, ht, hrun'⟩ := run_cons.1 hrun
    obtain ⟨hmv, hmvs'⟩ := List.forall_mem_cons.1 hmvs
    have hc' := hc.step (move_step ht)
    rw [deeds_cons ht, told_append, List.append_assoc]
    by_cases hduty : mv = .act .duty
    · subst hduty
      obtain ⟨d, hd, -⟩ := duty_move ht
      rw [hd] at hds
      obtain ⟨⟨socket, o, rfl⟩, hrest⟩ := List.forall_mem_cons.1 hds
      have hdeed : s.deed? (.act .duty) = some (.tell socket o) := by
        rw [deed?, hd]
      rw [hd, hdeed, Option.toList, told_tell, owed_tell, ih hc' hrest hrun' hmvs']
    · have hsame := kept_duties hc ht hmv hduty
      rw [deed?_eq_none hmv hduty, ← hsame]
      exact ih hc' (hsame ▸ hds) hrun' hmvs'

/-- On the way from `s` to `u` the lobby takes up the last messages of a session, `bye` and then the
one that says that the game is gone. Whatever else may happen in between, in `w`, it takes up
nothing more before it has done all that is due for the last of them. -/
structure Closes (s : Server) (n : Nat) (bye : List Message) (w : List Move) (t t' : Server)
    (v : List Move) (u : Server) : Prop where
  before : s.run w = some t
  bye : routed n (s.deeds w) = bye
  last : t.move (.act (.route n)) = some t'
  after : t'.run v = some u
  quiet : ∀ mv ∈ v, mv.takesUp = false
  done : u.duties = []

variable {t' u : Server} {bye : List Message} {w v : List Move}

section Closing

variable {g : Game} (h : s.Closes n bye w t t' v u) (hc : s.lobby.Consistent)
  (hp : s.lobby.games.Parting n g.id) (hunder : s.lobby.games.underway n = bye ++ [g.deleted])

include h hc hp hunder

theorem Closes.deed : t.deed? (.act (.route n)) = some (.route n g.deleted) := by
  obtain ⟨m, hdeed, hhead⟩ := deed?_route h.last
  have hsaid := (over_run hc hp.ended h.before).2
  rw [hunder, h.bye] at hsaid
  rw [← List.append_cancel_left hsaid] at hhead
  rw [hdeed, ← Option.some.inj hhead]

theorem Closes.step : t.lobby.Consistent ∧
    t.lobby.Step t.duties (some (.route n g.deleted)) t'.lobby t'.duties := by
  have hstep := move_step h.last
  rw [h.deed hc hp hunder] at hstep
  exact ⟨consistent_run hc h.before, hstep⟩

theorem Closes.told_eq (k : SocketId) : told k (t'.deeds v) =
    (if t.lobby.gameOf k = some g.id then [Lobby.deletedNotice g.id] else []) ++
      if t'.lobby.guests.contains k then [t'.lobby.infosMessage] else [] := by
  obtain ⟨hct, hstep⟩ := h.step hc hp hunder
  obtain ⟨htells, -, howed⟩ := hstep.deletion_owed hct rfl rfl
  have htold := told_of_tells (hct.step hstep) htells h.after h.quiet k
  rw [h.done, howed] at htold
  exact (htold.trans (List.append_nil _)).symm

theorem Closes.unlisted : t'.lobby.infos.contains g.id = false := by
  obtain ⟨hct, hstep⟩ := h.step hc hp hunder
  rw [(hstep.deletion_owed hct rfl rfl).2.1, Table.contains, Table.get?_erase, if_pos rfl]
  rfl

theorem Closes.left (k : SocketId) : t'.lobby.gameOf k ≠ some g.id := by
  obtain ⟨hct, hstep⟩ := h.step hc hp hunder
  obtain ⟨-, id, hid, hfree⟩ := hct.deletion hstep rfl
  obtain rfl : g.id = id := Option.some.inj hid
  intro hg
  cases hfree.symm.trans ((hct.step hstep).guests hg)

theorem Closes.notices_eq (k : SocketId) : s.notices (w ++ .act (.route n) :: v) g.id k =
    s.notices w g.id k + t'.lobby.due t'.duties g.id k := by
  obtain ⟨hct, hstep⟩ := h.step hc hp hunder
  obtain ⟨htells, -⟩ := hstep.deletion_owed hct rfl rfl
  have htold := told_of_tells (hct.step hstep) htells h.after h.quiet k
  have hnil : owed k u.duties = [] := by
    rw [h.done]
    rfl
  have hdue : t'.lobby.due t'.duties g.id k = t'.notices v g.id k := by
    rw [Lobby.due, if_neg (h.left hc hp hunder k), htold, hnil, List.append_nil, notices,
      Nat.add_zero]
  have hroute : (told k (some (Deed.route n g.deleted)).toList).countP (isLeave g.id) = 0 := rfl
  rw [notices_append h.before, notices_cons h.last, h.deed hc hp hunder, hroute, Nat.zero_add, hdue]

/-- Who is in the game is told once to leave it, and nobody else is. -/
theorem Closes.reaches (ht : s.lobby.Tracks seen s.duties)
    (ht' : ∃ seen, t.lobby.Tracks seen t.duties) (hbye : ∀ m ∈ bye, m.kind ≠ .gameDeleted)
    (hfree : s.duties = []) (k : SocketId) :
    (s.notices (w ++ .act (.route n) :: v) g.id k ≤
      if s.lobby.gameOf k = some g.id then 1 else 0) ∧
    (s.Abides (w ++ .act (.route n) :: v) g.id k →
      s.notices (w ++ .act (.route n) :: v) g.id k =
        (if s.lobby.gameOf k = some g.id then 1 else 0) ∧ u.lobby.gameOf k = none) := by
  obtain ⟨hct, hstep⟩ := h.step hc hp hunder
  obtain ⟨seen', ht'⟩ := ht'
  obtain ⟨hparting, hmost, hexact⟩ := pays_run (k := k) hc ht hp h.before (h.bye ▸ hbye)
  have hlast : Lobby.Pays g.id k t.lobby t.duties [] t'.lobby t'.duties :=
    hstep.pays hct ht' hparting k
  have hnil : ([] : List Message).countP (isLeave g.id) = 0 := rfl
  have hnow : s.lobby.due s.duties g.id k = if s.lobby.gameOf k = some g.id then 1 else 0 := by
    rw [hfree, Lobby.due_nil]
  have htotal := h.notices_eq hc hp hunder k
  rw [hnow] at hmost hexact
  refine ⟨?_, fun habides => ?_⟩
  · have hmost' := hlast.most
    omega
  · have hstays : ¬ t'.lobby.Strays g.id k := by
      refine habides (w ++ [.act (.route n)]) t' ?_ ?_
      · exact (List.prefix_append_right_inj w).2 (List.prefix_append [_] v)
      · rw [run_append, h.before]
        exact run_single h.last
    refine ⟨?_, ?_⟩
    · have hfirst := hexact (habides.of_prefix (List.prefix_append w _))
      have hexact' := hlast.exact hstays
      omega
    · have hsame : u.lobby.gameOf k = t'.lobby.gameOf k := by
        rw [(idles_run h.after h.quiet).frame]
        rfl
      rw [hsame, Option.eq_none_iff_forall_ne_some]
      intro id hg
      refine hstays (.inr ⟨id, hg, ?_⟩)
      rintro rfl
      exact h.left hc hp hunder k hg

end Closing

theorem takesUp_alone (h : mv.alone) : mv.takesUp = false := by
  cases mv with
  | act a => cases a <;> first | rfl | cases h
  | _ => rfl

theorem routed_eq_nil (hmvs : ∀ mv ∈ mvs, mv.takesUp = false) (n : Nat) :
    routed n (s.deeds mvs) = [] := by
  induction mvs generalizing s with
  | nil => rfl
  | cons mv mvs ih =>
    obtain ⟨hmv, hmvs⟩ := List.forall_mem_cons.1 hmvs
    rw [deeds]
    split
    · rw [routed_append, ih hmvs, List.append_nil]
      refine routed_of_quiet fun m => ?_
      by_cases hduty : mv = .act .duty
      · subst hduty
        rw [deed?]
        repeat' split
        all_goals simp
      · rw [deed?_eq_none hmv hduty]
        simp
    · rfl

theorem Awaits.run (h : s.Awaits t) : ∃ mvs, s.run mvs = some t ∧
    (∀ mv ∈ mvs, mv.takesUp = false) ∧ t.cancelled = s.cancelled ∧ t.closed = s.closed := by
  obtain ⟨mvs, hmvs, hrun⟩ := h
  refine ⟨mvs, hrun, fun mv hmv => takesUp_alone (hmvs mv hmv), ?_⟩
  induction mvs generalizing s with
  | nil =>
    obtain rfl := Option.some.inj hrun
    exact ⟨rfl, rfl⟩
  | cons mv mvs ih =>
    obtain ⟨u, hu, hrun⟩ := run_cons.1 hrun
    obtain ⟨hmv, hmvs⟩ := List.forall_mem_cons.1 hmvs
    obtain ⟨hcancelled, hclosed⟩ := ih hmvs hrun
    obtain ⟨hcancelled', hclosed'⟩ := keeps_alone hu hmv
    exact ⟨hcancelled.trans hcancelled', hclosed.trans hclosed'⟩

theorem route_possible (hfree : s.duties = []) (hcancelled : s.cancelled = false)
    (hclosed : s.closed = false) (hm : m ∈ s.lobby.games.underway n) :
    ∃ t, s.move (.act (.route n)) = some t ∧ t.cancelled = false ∧ t.closed = false := by
  have hidle : s.idle ∧ (!s.cancelled) = true := by
    simp [idle, hfree, hclosed, hcancelled]
  have hsome : (s.move (.act (.route n))).isSome := by
    rw [move, if_neg (by simp [searches]), act, if_pos hidle, Option.isSome_map,
      Registry.takeReport, Option.isSome_map, Option.isSome_iff_ne_none]
    intro hnone
    obtain ⟨⟨k, o⟩, ho, -⟩ := List.mem_map.1 hm
    obtain ⟨hmem, hk⟩ := List.mem_filter.1 ho
    have hne : n ≠ k := by simpa using List.lookup_eq_none_iff.1 hnone _ hmem
    exact hne (of_decide_eq_true hk).symm
  obtain ⟨t, ht⟩ := Option.isSome_iff_exists.1 hsome
  refine ⟨t, ht, ?_⟩
  obtain ⟨-, hact⟩ := Option.ite_none_right_eq_some.1 (act_of_move ht)
  obtain ⟨⟨o, games⟩, -, rfl⟩ := Option.map_eq_some_iff.1 hact
  exact ⟨hcancelled, hclosed⟩

theorem route_opens {rest : List Message} (hs : s.Flows) (hc : s.lobby.Consistent)
    (hover : s.lobby.games.Over n) (hcancelled : s.cancelled = false) (hclosed : s.closed = false)
    (hunder : s.lobby.games.underway n = m :: rest) : ∃ w t t', s.run w = some t ∧
      routed n (s.deeds w) = [] ∧ t.move (.act (.route n)) = some t' ∧
      routed n (t.deeds [.act (.route n)]) = [m] ∧ t'.lobby.games.underway n = rest ∧
      t'.cancelled = false ∧ t'.closed = false := by
  obtain ⟨t, ht, hfree⟩ := duties_open hs
  obtain ⟨w, hw, hquiet, hcancelled', hclosed'⟩ := ht.run
  have hnone : routed n (s.deeds w) = [] := routed_eq_nil hquiet n
  obtain ⟨hover', hsaid⟩ := over_run hc hover hw
  rw [hnone, hunder, List.nil_append] at hsaid
  obtain ⟨t', ht', hopen⟩ := route_possible (m := m) hfree (hcancelled'.trans hcancelled)
    (hclosed'.trans hclosed) (hsaid ▸ List.mem_cons_self)
  obtain ⟨o, hdeed, hhead⟩ := deed?_route ht'
  rw [← hsaid] at hhead
  obtain rfl := Option.some.inj hhead
  have hheard : routed n (t.deeds [.act (.route n)]) = [m] := by
    rw [deeds_cons ht', hdeed, routed_append, Option.toList, routed_route, if_pos rfl]
    rfl
  have hrest := (over_run (consistent_run hc hw) hover' (run_single ht')).2
  rw [hheard, ← hsaid] at hrest
  exact ⟨w, t, t', hw, hnone, ht', hheard, (List.cons.inj hrest).2.symm, hopen⟩

theorem Closes.behind {w₀ : List Move} {t₀ : Server} (h : t₀.Closes n bye w t t' v u)
    (hrun : s.run w₀ = some t₀) :
    s.Closes n (routed n (s.deeds w₀) ++ bye) (w₀ ++ w) t t' v u where
  before := by rw [run_append, hrun]; exact h.before
  bye := by rw [deeds_append hrun, routed_append, h.bye]
  last := h.last
  after := h.after
  quiet := h.quiet
  done := h.done

theorem closes_opens {last : Message} (hs : s.Flows) (hc : s.lobby.Consistent)
    (hover : s.lobby.games.Over n) (hcancelled : s.cancelled = false) (hclosed : s.closed = false)
    (hunder : s.lobby.games.underway n = bye ++ [last]) :
    ∃ w t t' v u, s.Closes n bye w t t' v u := by
  induction bye generalizing s with
  | nil =>
    obtain ⟨w, t, t', hw, hnone, ht', -⟩ := route_opens hs hc hover hcancelled hclosed hunder
    obtain ⟨u, hu, hdone⟩ := duties_open ((hs.run hw).move ht')
    obtain ⟨v, hv, hquiet, -⟩ := hu.run
    exact ⟨w, t, t', v, u, hw, hnone, ht', hv, hquiet, hdone⟩
  | cons m bye ih =>
    obtain ⟨w, t, t', hw, hnone, ht', hheard, hunder', hcancelled', hclosed'⟩ :=
      route_opens hs hc hover hcancelled hclosed hunder
    have hnext : s.run (w ++ [.act (.route n)]) = some t' := by
      rw [run_append, hw]
      exact run_single ht'
    obtain ⟨w', p, p', v, u, hcloses⟩ := ih (hs.run hnext) (consistent_run hc hnext)
      (over_run hc hover hnext).1 hcancelled' hclosed' hunder'
    have hbehind := hcloses.behind hnext
    rw [deeds_append hw, routed_append, hnone, hheard] at hbehind
    exact ⟨_, p, p', v, u, hbehind⟩

theorem Fresh.tracked {s₀ : Server} (h : s₀.Fresh) (hrun : s₀.run mvs = some s) :
    ∃ seen, s.lobby.Tracks seen s.duties :=
  ⟨_, (trackers_run h.consistent h.tracks h.carries hrun).1⟩

theorem Fresh.filed {s₀ : Server} (h : s₀.Fresh) (hrun : s₀.run mvs = some s) :
    s.lobby.Filed := by
  have hboth : s.lobby.Consistent ∧ s.lobby.Filed :=
    run_induction (P := fun s => s.lobby.Consistent ∧ s.lobby.Filed)
      (fun hs hmv => ⟨hs.1.step (move_step hmv), hs.2.step hs.1 (move_step hmv)⟩)
      ⟨h.consistent, fun id info hinfo => by rw [h.infos] at hinfo; cases hinfo⟩ hrun
  exact hboth.2

/-- When a session ends, at the request of a player, for being idle or because it is stopped, each
connection that is in its game as the lobby comes to its last messages is told once to leave, and is
in no game then, unless it was closed or in another game meanwhile. No connection is told twice, and
none that was not in the game is told at all. With the last of the messages the connections that are
still in the game are told, and then all that are open get the list of games, without this one. All
this comes to an end, as long as the lobby is at work. -/
theorem ending_reaches {s₀ s₁ : Server} {before : List Move} {g : Session} {a : Session.Act}
    (h₀ : s₀.Fresh) (hrun : s₀.run mvs = some s)
    (hg : s.lobby.games.sessions.get? n = some g) (hends : g.Ends s.now a bye)
    (hend : s.move (.act (.game n a)) = some s') (hbefore : s'.run before = some s₁)
    (hearlier : routed n (s'.deeds before) = s.lobby.games.underway n) (hfree : s₁.duties = []) :
    (∀ w t t' v u, s₁.Closes n bye w t t' v u →
      (∀ k, s₁.lobby.gameOf k = some g.game.id →
        s₁.Abides (w ++ .act (.route n) :: v) g.game.id k →
        s₁.notices (w ++ .act (.route n) :: v) g.game.id k = 1 ∧ u.lobby.gameOf k = none) ∧
      (∀ k, s₁.notices (w ++ .act (.route n) :: v) g.game.id k ≤ 1) ∧
      (∀ k, s₁.lobby.gameOf k ≠ some g.game.id →
        s₁.notices (w ++ .act (.route n) :: v) g.game.id k = 0) ∧
      ∃ list : Message, list.kind = .gameInfos ∧
        (∃ infos, list.games = some infos ∧ ∀ info ∈ infos, info.id ≠ g.game.id) ∧
        ∀ k, told k (t'.deeds v) =
          (if t.lobby.gameOf k = some g.game.id then [Lobby.deletedNotice g.game.id] else []) ++
            if t'.lobby.guests.contains k then [list] else []) ∧
    (0 < s₀.capacity → 0 < s₀.lobby.games.capacity → ∀ w₀ t₀, s₁.run w₀ = some t₀ →
      routed n (s₁.deeds w₀) <+: bye → t₀.cancelled = false → t₀.closed = false →
      ∃ w t t' v u, s₁.Closes n bye (w₀ ++ w) t t' v u) := by
  have hc := consistent_run h₀.consistent hrun
  have hrun₁ : s₀.run (mvs ++ .act (.game n a) :: before) = some s₁ := by
    rw [run_append, hrun]
    exact run_cons.2 ⟨s', hend, hbefore⟩
  have hc₁ := consistent_run h₀.consistent hrun₁
  obtain ⟨hlast, hparting⟩ := parting_of_ends hc hg hends hend hbefore hearlier
  refine ⟨fun w t t' v u hcloses => ?_, fun hcapacity hinboxes w₀ t₀ hw₀ => ?_⟩
  · obtain ⟨seen, ht⟩ := h₀.tracked hrun₁
    have hrun₂ : s₀.run (mvs ++ .act (.game n a) :: before ++ w) = some t := by
      rw [run_append, hrun₁]
      exact hcloses.before
    have hrun₃ : s₀.run (mvs ++ .act (.game n a) :: before ++ w ++ [.act (.route n)]) =
        some t' := by
      rw [run_append, hrun₂]
      exact run_single hcloses.last
    have hreaches (k : SocketId) := hcloses.reaches hc₁ hparting hlast ht (h₀.tracked hrun₂)
      (fun m hm => by simp [(hends.mem_bye hm).1]) hfree k
    refine ⟨fun k hk habides => ?_, fun k => ?_, fun k hk => ?_, t'.lobby.infosMessage, rfl,
      ⟨_, rfl, fun info hinfo he => ?_⟩, hcloses.told_eq hc₁ hparting hlast⟩
    · have hexact := (hreaches k).2 habides
      rwa [if_pos hk] at hexact
    · refine Nat.le_trans (hreaches k).1 ?_
      split <;> decide
    · have hmost := (hreaches k).1
      rw [if_neg hk] at hmost
      exact Nat.le_zero.1 hmost
    · obtain ⟨id, hid⟩ := Table.mem_values.1 hinfo
      have hgone := hcloses.unlisted hc₁ hparting hlast
      rw [← he, h₀.filed hrun₃ id info hid, Table.contains, hid] at hgone
      cases hgone
  · rintro ⟨rest, hrest⟩ hcancelled hclosed
    obtain ⟨hover₀, hunder₀⟩ := over_run hc₁ hparting.ended hw₀
    rw [hlast, ← hrest, List.append_assoc] at hunder₀
    have hflows := ((h₀.flows hcapacity hinboxes).run hrun₁).run hw₀
    obtain ⟨w, t, t', v, u, hcloses⟩ := closes_opens hflows (consistent_run hc₁ hw₀) hover₀
      hcancelled hclosed (List.append_cancel_left hunder₀).symm
    have hbehind := hcloses.behind hw₀
    rw [hrest] at hbehind
    exact ⟨w, t, t', v, u, hbehind⟩

def visit : List Move :=
  arrival ++ seating ++ [.connect "bob", .act .enroll, .act .duty, .act (.line 1 .writeNext)] ++
    say 0 "[4]" ++ [.act .duty]

theorem ending_reaches_visit : ∃ s s' g bye w t t' v u, vacant.Fresh ∧ vacant.run visit = some s ∧
    s.lobby.games.sessions.get? 0 = some g ∧ g.Ends s.now .handle bye ∧
    s.move (.act (.game 0 .handle)) = some s' ∧ s.lobby.games.underway 0 = [] ∧ s'.duties = [] ∧
    s'.Closes 0 bye w t t' v u ∧ s'.lobby.gameOf 1 = some g.game.id ∧
    s'.notices (w ++ .act (.route 0) :: v) g.game.id 1 = 1 ∧ u.lobby.gameOf 1 = none ∧
    s'.lobby.guests.contains 2 ∧ s'.lobby.gameOf 2 = none ∧
    s'.notices (w ++ .act (.route 0) :: v) g.game.id 2 = 0 := by
  have hrun : vacant.run visit = some _ := rfl
  have hends := ending_reaches fresh_vacant hrun (rfl : Table.get? _ 0 = some _)
    (.deleted rfl rfl ⟨rfl, rfl, rfl⟩ rfl) (rfl : move _ (.act (.game 0 .handle)) = some _)
    (rfl : run _ [] = some _) rfl rfl
  have hafter := hends.1 [.act (.route 0), .act .duty, .act (.line 0 .writeNext)] _ _
    [.act .duty, .act .duty] _ ⟨rfl, rfl, rfl, rfl, by simp [Move.takesUp], rfl⟩
  have hin := hafter.1 1 rfl <|
    .cons (Lobby.not_strays rfl (.inl rfl)) rfl <| .cons (Lobby.not_strays rfl (.inr rfl)) rfl <|
    .cons (Lobby.not_strays rfl (.inr rfl)) rfl <| .cons (Lobby.not_strays rfl (.inr rfl)) rfl <|
    .cons (Lobby.not_strays rfl (.inr rfl)) rfl <| .cons (Lobby.not_strays rfl (.inr rfl)) rfl <|
    abides_nil (Lobby.not_strays rfl (.inr rfl))
  have hout := hafter.2.2.1 2 fun h => by cases h
  exact ⟨_, _, _, _, _, _, _, _, _, fresh_vacant, hrun, rfl, .deleted rfl rfl ⟨rfl, rfl, rfl⟩ rfl, rfl, rfl,
    rfl, ⟨rfl, rfl, rfl, rfl, by simp [Move.takesUp], rfl⟩, rfl, hin.1, hin.2, rfl, rfl, hout⟩

end Server

end TileRace
