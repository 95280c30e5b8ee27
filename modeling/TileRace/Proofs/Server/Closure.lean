import TileRace.Proofs.Connection.Ends
import TileRace.Proofs.Server.Idleness

namespace TileRace.Server

variable {s s' : Server} {mv : Move} {mvs : List Move} {i : Nat} {l l' : Link}

theorem Outside.keeps (h : s.Outside mv i l l') : l'.socket = l.socket ∧ l'.name = l.name ∧
    (l.cancelled → l'.cancelled) ∧ l'.reported = l.reported := by
  cases h with
  | sent f =>
    rw [Link.send]
    split <;> exact ⟨rfl, rfl, id, rfl⟩
  | cancelled => exact ⟨rfl, rfl, fun _ => rfl, rfl⟩
  | _ => exact ⟨rfl, rfl, id, rfl⟩

theorem cancelled_move (h : s.move mv = some s') (hl : s.link? i = some l) (hc : l.cancelled) :
    ∃ l', s'.link? i = some l' ∧ l'.socket = l.socket ∧ l'.name = l.name ∧ l'.cancelled := by
  by_cases own : ∃ a, mv = .act (.line i a)
  · obtain ⟨a, rfl⟩ := own
    obtain ⟨l₀, l', e, hl₀, hact, hl', -⟩ := line_move h
    obtain rfl := Option.some.inj (hl₀.symm.trans hl)
    have hsame := Link.identity_act hact
    exact ⟨l', hl', hsame.socket, hsame.name, Link.cancelled_act hact hc⟩
  · obtain ⟨l', hl', houtside⟩ := outside_move hl h (not_exists.mp own)
    obtain ⟨hsocket, hname, hcancelled, -⟩ := houtside.keeps
    exact ⟨l', hl', hsocket, hname, hcancelled hc⟩

theorem cancelled_run (hrun : s.run mvs = some s') (hl : s.link? i = some l) (hc : l.cancelled) :
    ∃ l', s'.link? i = some l' ∧ l'.socket = l.socket ∧ l'.name = l.name ∧ l'.cancelled := by
  induction mvs generalizing s l with
  | nil =>
    obtain rfl := Option.some.inj hrun
    exact ⟨l, hl, rfl, rfl, hc⟩
  | cons mv mvs ih =>
    obtain ⟨t, ht, hrun⟩ := run_cons.mp hrun
    obtain ⟨l', hl', hsocket, hname, hc'⟩ := cancelled_move ht hl hc
    obtain ⟨l'', hl'', hsocket', hname', hc''⟩ := ih hrun hl' hc'
    exact ⟨l'', hl'', hsocket'.trans hsocket, hname'.trans hname, hc''⟩

theorem closed_move (h : s.move mv = some s') (hc : s.closed) : s'.closed := by
  cases does_move h with
  | stops => rfl
  | touches =>
    rw [change_eq]
    exact hc
  | _ => exact hc

/-- The lobby has been told of the end of a connection, or does not care. -/
def Heard (s : Server) (l : Link) : Prop :=
  .closed l.name l.socket ∈ s.events ∨ s.lobby.nameOf l.socket = none ∨ s.closed

theorem Heard.of_eq (h : s.Heard l) (hs : l'.socket = l.socket) (hn : l'.name = l.name) :
    s.Heard l' := by
  rwa [Heard, hs, hn]

theorem Heard.move (h : s.Heard l) (hatt : s.Attended) (hlisted : s.Listed)
    (hl : s.link? i = some l) (hmv : s.move mv = some s') : s'.Heard l := by
  have hreg := hatt.registers hmv
  obtain hmem | hnone | hclosed := h
  · by_cases hear : mv = .act .hear
    · subst hear
      cases hreg with
      | kept same hear =>
        obtain ⟨e, he, -⟩ := hear_move hmv
        rw [he, List.mem_cons] at hmem
        rcases hmem with rfl | hmem
        · exact (hear _ _ _ rfl he).elim
        · exact .inl hmem
      | admitted move => cases move
      | @forgot x p rest move event register =>
        obtain ⟨e, he, -⟩ := hear_move hmv
        rw [he, List.mem_cons] at hmem
        rcases hmem with rfl | hmem
        · obtain ⟨hhead, -⟩ := List.cons.inj (he.symm.trans event)
          cases hhead
          refine .inr (.inl ?_)
          rw [Lobby.nameOf_eq, register, Table.get?_erase, if_pos rfl]
        · exact .inl hmem
    by_cases stop : mv = .act .stop
    · subst stop
      cases does_move hmv with
      | stops => exact .inr (.inr rfl)
      | touches touch => cases touch
    by_cases line : ∃ j a, mv = .act (.line j a)
    · obtain ⟨j, a, rfl⟩ := line
      obtain ⟨_, _, e, -, -, -, hevents, -⟩ := line_move hmv
      rw [Heard, hevents]
      exact .inl (List.mem_append_left _ hmem)
    · rw [Heard, events_of_ne hmv hear stop fun j a he => line ⟨j, a, he⟩]
      exact .inl hmem
  · obtain hsame | ⟨hnone', -⟩ := hlisted.nameOf hreg hl
    · exact .inr (.inl (hsame.trans hnone))
    · exact .inr (.inl hnone')
  · exact .inr (.inr (closed_move hmv hclosed))

def Announced (s : Server) : Prop := ∀ i l, s.link? i = some l → l.reported → s.Heard l

theorem Announced.move (hs : s.Announced) (hatt : s.Attended) (hlisted : s.Listed)
    (h : s.move mv = some s') : s'.Announced := by
  intro i l' hl' hr
  by_cases own : ∃ a, mv = .act (.line i a)
  · obtain ⟨a, rfl⟩ := own
    obtain ⟨l, l₁, e, hl, hact, hl₁, hevents, -⟩ := line_move h
    obtain rfl := Option.some.inj (hl₁.symm.trans hl')
    have hsame := Link.identity_act hact
    refine Heard.of_eq ?_ hsame.socket hsame.name
    obtain ⟨hreported, -⟩ | ⟨-, -, -, -, he, hfree⟩ := Link.told_act hact
    · exact (hs i _ hl (hreported ▸ hr)).move hatt hlisted hl h
    · cases hintake : s.intake with
      | full => exact (hfree hintake).elim
      | accepting =>
        rw [if_pos hintake] at he
        rw [Heard, hevents, he]
        exact .inl (by simp)
      | shut =>
        refine .inr (.inr (closed_move h ?_))
        rw [intake] at hintake
        split at hintake
        · assumption
        · split at hintake <;> cases hintake
  · have hb := (turns_move h).befalls i
    rw [hl'] at hb
    generalize ho : s.link? i = o at hb
    cases hb with
    | outside houtside =>
      obtain ⟨hsocket, hname, -, hreported⟩ := houtside.keeps
      have hheard := hs i _ ho (hreported ▸ hr)
      exact (hheard.move hatt hlisted ho h).of_eq hsocket hname
    | acts move => exact (own ⟨_, move⟩).elim
    | opened => cases hr

theorem announced_run {s₀ : Server} (h₀ : s₀.Fresh) (hrun : s₀.run mvs = some s) : s.Announced := by
  have hstep {s s' : Server} {mv : Move} (hs : (s.Attended ∧ s.Listed) ∧ s.Announced)
      (h : s.move mv = some s') : (s'.Attended ∧ s'.Listed) ∧ s'.Announced :=
    ⟨⟨hs.1.1.move h, hs.1.2.move hs.1.1 h⟩, hs.2.move hs.1.1 hs.1.2 h⟩
  have hfresh : s₀.Announced := fun i l hl => by simp [h₀.link?] at hl
  exact (run_induction hstep ⟨⟨h₀.attended, h₀.listed⟩, hfresh⟩ hrun).2

end TileRace.Server
