import TileRace.Proofs.Server.Connections
import TileRace.Proofs.Server.Tracking

namespace TileRace

def Event.request? : Event → Option Message
  | .inbound m => some m
  | .closed .. => none

def Duty.request? : Duty → Option Message
  | .pass _ m _ _ => some m
  | .tell .. => none

namespace Server

variable {s s' : Server} {mv : Move} {m : Message} {i n : Nat}

theorem line_move {a : Link.Act} (h : s.move (.act (.line i a)) = some s') : ∃ l l' e,
    s.link? i = some l ∧ l.act s.now s.intake a = some (l', e) ∧ s'.link? i = some l' ∧
    s'.events = s.events ++ e.toList ∧ s'.duties = s.duties ∧ s'.lobby = s.lobby := by
  cases does_move h with
  | acts link act =>
    refine ⟨_, _, _, link?_eq_some.2 link, act, ?_, rfl, rfl, rfl⟩
    exact (link?_set link).trans (if_pos rfl)
  | touches touch => cases touch

theorem duty_move (h : s.move (.act .duty) = some s') : ∃ d, s.duties = d :: s'.duties ∧
    s'.events = s.events ∧ s'.lobby = { s.lobby with games := s'.lobby.games } ∧
    s'.lobby.games.rooms = s.lobby.games.rooms := by
  cases does_move h with
  | passes due delivered =>
    exact ⟨_, due, rfl, rfl, (Registry.deliver_eq_accepted delivered).1.rooms⟩
  | loses due | queues due => exact ⟨_, due, rfl, rfl, rfl⟩
  | touches touch => cases touch

theorem hear_move (h : s.move (.act .hear) = some s') : ∃ e, s.events = e :: s'.events ∧
    s.duties = [] ∧
    ((∃ m, e = .inbound m ∧ s'.lobby = (s.lobby.receive s.now m).1 ∧
      s'.duties = (s.lobby.receive s.now m).2) ∨
    e.request? = none ∧ s'.duties = [] ∧ s'.lobby.games = s.lobby.games) := by
  cases does_move h with
  | hears free event => exact ⟨_, event, free, .inl ⟨_, rfl, rfl, rfl⟩⟩
  | forgets free event => exact ⟨_, event, free, .inr ⟨rfl, free, rfl⟩⟩
  | touches touch => cases touch

theorem events_of_ne (h : s.move mv = some s') (hear : mv ≠ .act .hear) (stop : mv ≠ .act .stop)
    (line : ∀ i a, mv ≠ .act (.line i a)) : s'.events = s.events := by
  cases does_move h with
  | stops => exact (stop rfl).elim
  | hears | forgets => exact (hear rfl).elim
  | acts => exact (line _ _ rfl).elim
  | touches => rw [change_eq]
  | _ => rfl

theorem stop_move (h : s.move (.act .stop) = some s') :
    s'.events = [] ∧ s'.duties = s.duties ∧ s'.lobby = s.lobby := by
  cases does_move h with
  | stops => exact ⟨rfl, rfl, rfl⟩
  | touches touch => cases touch

inductive Assigns (s : Server) (mv : Move) (s' : Server) : Prop where
  | kept (enroll : mv ≠ .act .enroll) (route : ∀ n, mv ≠ .act (.route n))
    (same : s'.duties = s.duties)
  | enrolled (move : mv = .act .enroll) (free : s.duties = [])
    (infos : ∀ d ∈ s'.duties, ∃ k m, d = .tell k m ∧ m.kind = .gameInfos)
  | routed {n m games} (move : mv = .act (.route n)) (free : s.duties = [])
    (takes : s.lobby.games.Takes n m games)
    (reports : Lobby.Reports { s.lobby with games } m s'.lobby s'.duties)

theorem assigns_of_ne (hl : s.lobby.Consistent) (h : s.move mv = some s')
    (hear : mv ≠ .act .hear) (duty : mv ≠ .act .duty) : s.Assigns mv s' := by
  have hnone (free : s.duties = []) : ∀ d ∈ s.duties, ∃ k m, d = .tell k m ∧ m.kind = .gameInfos :=
    by simp [free]
  cases does_move h with
  | admits free next waits limits =>
    obtain ⟨-, rfl, -⟩ := Lobby.enroll_eq_ok limits
    exact .enrolled rfl free fun d hd => ⟨_, _, List.mem_singleton.1 hd, rfl⟩
  | refuses free | skips free => exact .enrolled rfl free (hnone free)
  | hears | forgets => exact (hear rfl).elim
  | routes free takes =>
    obtain ⟨ht, hr⟩ := hl.reports takes
    exact .routed rfl free ht hr
  | passes | loses | queues => exact (duty rfl).elim
  | touches touch =>
    refine .kept ?_ ?_ (by rw [change_eq])
    · rintro rfl
      cases touch
    · rintro n rfl
      cases touch
  | _ => exact .kept nofun nofun rfl

theorem duties_of_ne (hl : s.lobby.Consistent) (h : s.move mv = some s') (hear : mv ≠ .act .hear)
    (duty : mv ≠ .act .duty) :
    s'.duties = s.duties ∨ s.duties = [] ∧ ∀ d ∈ s'.duties, d.request? = none := by
  cases assigns_of_ne hl h hear duty with
  | kept enroll route same => exact .inl same
  | enrolled move free infos =>
    refine .inr ⟨free, fun d hd => ?_⟩
    obtain ⟨k, m, rfl, -⟩ := infos d hd
    rfl
  | routed move free takes reports =>
    refine .inr ⟨free, fun d hd => ?_⟩
    cases d with
    | tell => rfl
    | pass => exact (reports.passless hd).elim

theorem inbox_started (hl : s.lobby.Consistent) :
    s.lobby.games.inbox s.lobby.games.started = [] := by
  have hnone : s.lobby.games.sessions.get? s.lobby.games.started = none := by
    refine Option.eq_none_iff_forall_ne_some.2 fun session hs => ?_
    have hroom := hl.lodged (congrArg (Option.map Session.game) hs)
    exact Nat.lt_irrefl _ (hl.started hroom)
  rw [Registry.inbox, hnone]
  rfl

theorem inbox_receive (hl : s.lobby.Consistent) (now n : Nat) (m : Message) :
    (s.lobby.receive now m).1.games.inbox n = s.lobby.games.inbox n := by
  have hr := s.lobby.receives_receive now m
  generalize (s.lobby.receive now m).1 = l', (s.lobby.receive now m).2 = ds' at hr ⊢
  cases hr with
  | dropped | left | passed | answered => rfl
  | created sent kind game =>
    obtain ⟨session, hopens⟩ := Registry.create_eq_ok game
    rw [hopens.inbox]
    split
    · rename_i hn
      rw [hn, inbox_started hl]
    · rfl

theorem inbox_reported {l' : Lobby} {games : Registry} {ds : List Duty}
    (ht : s.lobby.games.Takes n m games) (hr : Lobby.Reports { s.lobby with games } m l' ds)
    (k : Nat) : l'.games.inbox k = s.lobby.games.inbox k := by
  have hgames : games.inbox k = s.lobby.games.inbox k := by
    rw [Registry.inbox, ht.sessions, Registry.inbox]
  cases hr with
  | news => exact hgames
  | deleted kind about deletes =>
    rw [deletes.frame]
    exact ((games.removes_remove _).inbox k).trans hgames
  | routed lasting quiet routes =>
    rw [routes.moved.frame]
    exact hgames

theorem inbox_of_ne (hl : s.lobby.Consistent) (h : s.move mv = some s') (duty : mv ≠ .act .duty)
    (game : ∀ a, mv ≠ .act (.game n a)) : s'.lobby.games.inbox n = s.lobby.games.inbox n := by
  cases does_move h with
  | admits free next waits limits => rw [(Lobby.enroll_eq_ok limits).1]
  | hears => exact inbox_receive hl _ _ _
  | routes free takes =>
    obtain ⟨ht, hr⟩ := hl.reports takes
    exact inbox_reported ht hr n
  | passes | loses | queues => exact (duty rfl).elim
  | @plays k a games act =>
    obtain ⟨session, result, -, hplays⟩ := Registry.act_eq_some act
    have hne : n ≠ k := by
      rintro rfl
      exact game a rfl
    change games.inbox n = _
    rw [Registry.inbox, hplays.sessions, if_neg hne, Registry.inbox]
  | touches => rw [change_eq]
  | cancels => exact s.lobby.games.inbox_cancel n
  | _ => rfl

theorem inbox_play {a : Session.Act} (h : s.move (.act (.game n a)) = some s') :
    (∃ m rest, a = .handle ∧ s.lobby.games.inbox n = m :: rest ∧ s'.lobby.games.inbox n = rest) ∨
      s'.lobby.games.inbox n = [] := by
  cases does_move h with
  | @plays _ _ games act =>
    obtain ⟨session, result, hact, hplays⟩ := Registry.act_eq_some act
    change (∃ m rest, a = .handle ∧ s.lobby.games.inbox n = m :: rest ∧ games.inbox n = rest) ∨
      games.inbox n = []
    rw [Registry.inbox, hplays.session, Registry.inbox, hplays.sessions, if_pos rfl]
    cases Session.acts_act hact with
    | handled handle next keep lasts result =>
      rw [result]
      exact .inl ⟨_, _, handle, next, rfl⟩
    | failed handle next late result =>
      rw [result]
      exact .inr rfl
    | ended result =>
      rw [result]
      exact .inr rfl
  | touches touch => cases touch

end Server

end TileRace
