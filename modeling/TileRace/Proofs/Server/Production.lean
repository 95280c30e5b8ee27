import TileRace.Proofs.Game.Disclosure
import TileRace.Proofs.Server.Handlers
import TileRace.Proofs.Server.Run

namespace TileRace

namespace Lobby

inductive Makes (l l' : Lobby) (m : Message) (g g' : Game) : Prop where
  | report {n out} (before : l.games.game? n = some g) (after : l'.games.game? n = some g')
    (reports : l'.games.underway n = l.games.underway n ++ out) (mem : m ∈ out)

/-- What becomes of the games and their reports when no session acts: a game may come, and reports
are taken up. -/
structure Rests (l l' : Lobby) : Prop where
  games : ∀ n g, l'.games.game? n = some g → l.games.game? n = some g ∨ g.players = []
  reports : ∀ n, (l'.games.underway n).Sublist (l.games.underway n)

/-- All that can become of the games: a session acts, or they rest. -/
inductive Goes (l l' : Lobby) : Prop where
  | played {n session result} {now : Nat} {a : Session.Act}
    (act : Session.act now session a = some result)
    (plays : l.games.Plays n session result l'.games)
  | rested (rests : l.Rests l')

def Tidy (l : Lobby) : Prop := ∀ n g, l.games.game? n = some g → g.Orderly

variable {l l' : Lobby} {ds ds' : List Duty} {deed : Option Deed} {m : Message} {g g' : Game}
  {n : Nat} {games : Registry}

theorem Rests.of_eq (h : l'.games = l.games) : l.Rests l' where
  games _ _ hg := .inl (h ▸ hg)
  reports _ := h ▸ .refl _

theorem Rests.of_alike (h : l.games.Alike games) : l.Rests { l with games } where
  games n _ hg := .inl ((h.game? n).symm.trans hg)
  reports n := h.underway n ▸ .refl _

theorem rests_receive (l : Lobby) (now : Nat) (m : Message) : l.Rests (l.receive now m).1 := by
  have hr := l.receives_receive now m
  generalize (l.receive now m).1 = l', (l.receive now m).2 = ds at hr
  cases hr with
  | dropped | passed | answered | left => exact .of_eq rfl
  | created sent kind game =>
    obtain ⟨session, hopens⟩ := Registry.create_eq_ok game
    refine ⟨fun k g hg => ?_, fun k => hopens.underway k ▸ .refl _⟩
    rw [hopens.game?] at hg
    split at hg
    · exact .inr (Option.some.inj hg ▸ hopens.players)
    · exact .inl hg

theorem games_report (l : Lobby) (m : Message) : (l.report m).1.games = l.games ∨
    ∃ id, (l.report m).1.games = l.games.remove id := by
  rw [report]
  split
  · split <;> exact .inl rfl
  · split
    · exact .inl rfl
    · rename_i id _
      obtain ⟨_, hdeletes, -⟩ := l.deletes_deleted id
      exact .inr ⟨id, by rw [hdeletes.frame]⟩
  · rw [route]
    split
    · exact .inl rfl
    · rename_i name _
      exact .inl (congrArg Lobby.games (l.moved_foldl_follow m (l.targets name m)).frame :)

theorem rests_report (h : l.games.takeReport n = some (m, games)) :
    l.Rests ({ l with games }.report m).1 := by
  have ht := Registry.takeReport_eq_some h
  have hsame : ∀ k, ({ l with games }.report m).1.games.game? k = games.game? k ∧
      ({ l with games }.report m).1.games.underway k = games.underway k := by
    obtain hgames | ⟨id, hgames⟩ := games_report { l with games } m <;> rw [hgames]
    · exact fun k => ⟨rfl, rfl⟩
    · have hr := games.removes_remove id
      exact fun k => ⟨hr.game? k, hr.underway k⟩
  refine ⟨fun k g hg => .inl ?_, fun k => ?_⟩
  · rwa [← ht.game?, ← (hsame k).1]
  · rw [(hsame k).2]
    by_cases hk : k = n
    · exact hk ▸ ht.head ▸ List.sublist_cons_self _ _
    · exact ht.others k hk ▸ .refl _

theorem Step.goes (h : l.Step ds deed l' ds') : l.Goes l' := by
  cases h with
  | rest | tell | answer | forget => exact .rested (.of_eq rfl)
  | enroll free hok => exact .rested (.of_eq (by rw [(enroll_eq_ok hok).1]))
  | hear now => exact .rested (l.rests_receive now _)
  | route free hm => exact .rested (rests_report hm)
  | pass socket answer ds hok => exact .rested (.of_alike (Registry.deliver_eq_accepted hok).1)
  | cancel => exact .rested (.of_alike l.games.alike_cancel)
  | play ds hok =>
    obtain ⟨session, result, hact, hplays⟩ := Registry.act_eq_some hok
    exact .played hact hplays

theorem Tidy.step (hl : l.Tidy) (h : l.Step ds deed l' ds') : l'.Tidy := by
  intro n g hg
  cases h.goes with
  | played act plays =>
    rw [plays.game?] at hg
    split at hg
    · obtain ⟨session', hsession, rfl⟩ := Option.map_eq_some_iff.1 hg
      exact Session.act_orderly (hl _ _ (congrArg (Option.map _) plays.session)) act hsession
    · exact hl n g hg
  | rested rests =>
    obtain hg | hnone := rests.games n g hg
    · exact hl n g hg
    · intro name seat hseat
      have hmem : name ∈ g.players := Table.mem_keys.2 ⟨seat, hseat⟩
      rw [hnone] at hmem
      cases hmem

theorem Makes.discloses (hl : l.Tidy) (h : l.Step ds deed l' ds') (hm : l.Makes l' m g g') :
    g.Discloses g' m ∧ m.gameId = some g'.id := by
  obtain @⟨n, out, hbefore, hafter, hreports, hmem⟩ := hm
  have hout : ∀ out', l.games.underway n ++ out' = l'.games.underway n → m ∈ out' := by
    intro out' he
    rw [hreports, List.append_cancel_left_eq] at he
    exact he ▸ hmem
  cases h.goes with
  | rested rests =>
    have hle := (rests.reports n).length_le
    rw [hreports, List.length_append] at hle
    have hpos := List.length_pos_of_mem hmem
    omega
  | @played k session result now a act plays =>
    have hmem := hout _ (plays.underway n).symm
    split at hmem
    · rename_i hn
      subst hn
      have hgame : l.games.game? n = some session.game := congrArg (Option.map _) plays.session
      obtain rfl := Option.some.inj (hbefore.symm.trans hgame)
      rw [plays.game?, if_pos rfl] at hafter
      obtain ⟨session', hsession, rfl⟩ := Option.map_eq_some_iff.1 hafter
      constructor
      · obtain hdiscreet | ⟨t, ht, hdiscloses⟩ := Session.act_discloses (hl n _ hgame) act hmem
        · exact Game.discloses_of_discreet hdiscreet
        · rwa [Option.some.inj (hsession.symm.trans ht)]
      · rw [(Session.act_named act hmem).1, Session.act_id act hsession]
    · cases hmem

/-- What is on its way to the lobby has been said by a game before, or is said now. -/
theorem Step.underway (hl : l.Tidy) (h : l.Step ds deed l' ds') (hm : m ∈ l'.games.underway n) :
    m ∈ l.games.underway n ∨ (m.Discreet ∨ ∃ g g', l.Makes l' m g g') ∧
      (m.player.isSome → m.kind ≠ .gameInfoChanged ∧ m.kind ≠ .gameDeleted) := by
  cases h.goes with
  | rested rests => exact .inl ((rests.reports n).mem hm)
  | @played k session result now a act plays =>
    have hreports := plays.underway n
    rw [hreports] at hm
    refine (List.mem_append.1 hm).imp_right fun hout => ?_
    split at hout
    · rename_i hn
      subst hn
      rw [if_pos rfl] at hreports
      refine ⟨?_, Session.act_addressed act hout⟩
      have hgame : l.games.game? n = some session.game := congrArg (Option.map _) plays.session
      obtain hdiscreet | ⟨t, ht, -⟩ := Session.act_discloses (hl n _ hgame) act hout
      · exact .inl hdiscreet
      · refine .inr ⟨session.game, t.game, .report hgame ?_ hreports hout⟩
        rw [plays.game?, if_pos rfl, ht]
        rfl
    · cases hout

end Lobby

namespace Server

/-- A game has a message sent in a run, in a move that takes it from `g` to `g'`. -/
def Made (s₀ : Server) (mvs : List Move) (m : Message) (g g' : Game) : Prop :=
  ∃ before mv after s s', mvs = before ++ mv :: after ∧ s₀.run before = some s ∧
    s.move mv = some s' ∧ s.lobby.Makes s'.lobby m g g'

variable {s₀ s s' : Server} {mv : Move} {mvs : List Move} {m : Message} {g g' : Game}

theorem Fresh.tidy (h : s.Fresh) : s.lobby.Tidy := by
  intro n g hg
  rw [Registry.game?, h.sessions] at hg
  cases hg

theorem tidy_run (h₀ : s₀.Fresh) (hrun : s₀.run mvs = some s) : s.lobby.Tidy :=
  run_induction (P := fun s => s.lobby.Tidy) (fun hs h => hs.step (move_step h)) h₀.tidy hrun

theorem Made.append (h : s₀.Made mvs m g g') (mv : Move) : s₀.Made (mvs ++ [mv]) m g g' := by
  obtain ⟨before, mv', after, t, t', rfl, hrun, hmove, hmakes⟩ := h
  exact ⟨before, mv', after ++ [mv], t, t', List.append_assoc .., hrun, hmove, hmakes⟩

theorem made_concat (hrun : s₀.run mvs = some s) (h : s.move mv = some s')
    (hm : s.lobby.Makes s'.lobby m g g') : s₀.Made (mvs ++ [mv]) m g g' :=
  ⟨mvs, mv, [], s, s', rfl, hrun, h, hm⟩

theorem Made.discloses (h₀ : s₀.Fresh) (h : s₀.Made mvs m g g') :
    g.Discloses g' m ∧ m.gameId = some g'.id := by
  obtain ⟨before, mv, after, s, s', -, hrun, hmove, hmakes⟩ := h
  exact hmakes.discloses (tidy_run h₀ hrun) (move_step hmove)

end Server

end TileRace
