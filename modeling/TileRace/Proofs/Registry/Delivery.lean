import TileRace.Proofs.Registry.Order

namespace TileRace

namespace Desk

variable {d d' : Desk} {a : Act} {answer : Option Answer} {n : Nat} {m : Message}
  {start : Desk} {acts : List Act} {said : List Message} {q : Message} {id : GameId}

/-- How session `n`, whose game has an id, ended in a run: one of its players asked to delete the
game, it was idle, or it was stopped, because all games were cancelled or its room was given up. The
last that it said is that the game is gone, which it said once, and it told each player once to
leave, in the order of their names, unless it was stopped. -/
inductive Ended (start : Desk) (acts : List Act) (n : Nat) (id : GameId) (said : List Message) :
    Prop where
  | of_run {before rest : List Act} {now : Nat} {a : Session.Act} {e : Desk} {s : Session}
    {bye : List Message} (split : acts = before ++ .play now n a :: rest)
    (run : start.run before = some e) (live : e.games.sessions.get? n = some s)
    (named : s.game.id = id) (ends : s.Ends now a bye)
    (stopped : a = .halt → e.games.cancelled ∨ ¬ ∃ id, e.games.rooms.get? id = some n)
    (last : said = e.games.underway n ++ bye ++ [s.game.deleted])
    (once : ∀ o ∈ e.games.underway n ++ bye, o.kind ≠ .gameDeleted)
    (order : s.game.players.Pairwise (· < ·))
    (leavers : s.game.leavers said = if a = .halt then [] else s.game.players)

theorem Ended.more (h : Ended start acts n id said) (a : Act) :
    Ended start (acts ++ [a]) n id said := by
  cases h with
  | of_run split run live named ends stopped last once order leavers =>
    exact .of_run (by rw [split, List.append_assoc, List.cons_append]) run live named ends stopped
      last once order leavers

/-- How session `n`, whose game has an id, failed in a run: it handled a message that puts off the
time at which the game is idle, but the clock ends before that time. It never said that the game is
gone. -/
inductive Failed (start : Desk) (acts : List Act) (n : Nat) (id : GameId) (said : List Message) :
    Prop where
  | of_run {before rest : List Act} {now : Nat} {e : Desk} {s : Session} {m : Message}
    {inbox : List Message} (split : acts = before ++ .play now n .handle :: rest)
    (run : start.run before = some e) (live : e.games.sessions.get? n = some s)
    (runs : s.failed = false) (named : s.game.id = id) (next : s.inbox = m :: inbox)
    (counts : m.kind ≠ .refreshGameBoard) (late : Time.last < now + start.games.settings.idle)
    (last : said = e.games.underway n ++ (s.game.handle m).out)
    (silent : ∀ o ∈ said, o.kind ≠ .gameDeleted)

theorem Failed.more (h : Failed start acts n id said) (a : Act) :
    Failed start (acts ++ [a]) n id said := by
  cases h with
  | of_run split run live runs named next counts late last silent =>
    exact .of_run (by rw [split, List.append_assoc, List.cons_append]) run live runs named next
      counts late last silent

theorem Does.plays {s : Session} (h : d.Does a d' answer) (hs : d.games.sessions.get? n = some s) :
    (∃ s', d'.games.sessions.get? n = some s' ∧ (s'.failed → s.failed)) ∨
    ∃ now a' result, a = .play now n a' ∧ s.act now a' = some result ∧
      d'.games.sessions.get? n = result.session ∧
      d'.games.underway n = d.games.underway n ++ result.out := by
  cases h with
  | @opened now m s' free id room named players quiet runs =>
    rw [Table.get?_insert]
    split
    · exact .inl ⟨s', rfl, fun hfailed => by cases runs.symm.trans hfailed⟩
    · exact .inl ⟨s, hs, fun hfailed => hfailed⟩
  | removed =>
    rw [Registry.sessions_remove, hs]
    exact .inl ⟨_, rfl, fun hfailed => by split at hfailed <;> exact hfailed⟩
  | delivered =>
    rw [Table.get?_modify, hs]
    split
    · exact .inl ⟨_, rfl, id⟩
    · exact .inl ⟨s, rfl, id⟩
  | cancelled =>
    rw [Registry.cancel, Table.get?_map, hs]
    exact .inl ⟨_, rfl, id⟩
  | @played now n' a' s' result r acts plays =>
    rw [plays.sessions, plays.underway]
    split
    · rename_i hn
      subst hn
      obtain rfl := Option.some.inj (hs.symm.trans plays.session)
      exact .inr ⟨now, a', result, rfl, acts, rfl, rfl⟩
    · exact .inl ⟨s, hs, id⟩
  | _ => exact .inl ⟨s, hs, id⟩

theorem Does.ends {s : Session} (h : d.Does a d' answer)
    (hs : d.games.sessions.get? n = some s) (hs' : d'.games.sessions.get? n = none) :
    ∃ now a' bye, a = .play now n a' ∧ s.Ends now a' bye ∧
      d'.games.underway n = d.games.underway n ++ bye ++ [s.game.deleted] := by
  obtain ⟨s', hlive, -⟩ | ⟨now, a', result, rfl, hacts, hsession, hsaid⟩ := h.plays hs
  · cases hlive.symm.trans hs'
  · cases Session.acts_act hacts with
    | handled act next keep lasts session | failed act next late session =>
      cases session.symm.trans (hsession.symm.trans hs')
    | @ended bye session ends out =>
      exact ⟨now, a', bye, rfl, ends, by rw [hsaid, out, List.append_assoc]⟩

theorem Does.fails {s s' : Session} (h : d.Does a d' answer)
    (hs : d.games.sessions.get? n = some s) (hruns : s.failed = false)
    (hs' : d'.games.sessions.get? n = some s') (hfailed : s'.failed) :
    ∃ now m rest, a = .play now n .handle ∧ s.inbox = m :: rest ∧
      s.deadlineAfter? m.kind now = none ∧
      d'.games.underway n = d.games.underway n ++ (s.game.handle m).out := by
  obtain ⟨s'', hlive, himp⟩ | ⟨now, a', result, rfl, hacts, hsession, hsaid⟩ := h.plays hs
  · obtain rfl := Option.some.inj (hlive.symm.trans hs')
    cases hruns.symm.trans (himp hfailed)
  · cases Session.acts_act hacts with
    | handled act next keep lasts session =>
      obtain rfl := Option.some.inj (session.symm.trans (hsession.symm.trans hs'))
      cases hruns.symm.trans hfailed
    | failed act next late session out =>
      exact ⟨now, _, _, by rw [act], next, late, by rw [hsaid, out]⟩
    | ended session => cases session.symm.trans (hsession.symm.trans hs')

theorem Does.lives (h : d.Does a d' answer) (hn : d.opened[n]? = none) {x : Message × GameId}
    (hx : d'.opened[n]? = some x) (hd : d.Sound) : ∃ s, d'.games.sessions.get? n = some s := by
  cases h with
  | @opened now m s =>
    have hle := List.getElem?_eq_none_iff.1 hn
    have hlt := (List.getElem?_eq_some_iff.1 hx).1
    rw [List.length_append, List.length_singleton] at hlt
    have hn : n = d.games.started := by
      rw [← hd.count]
      omega
    exact ⟨s, by rw [Table.get?_insert, if_pos hn]⟩
  | _ => cases hn.symm.trans hx

theorem Sound.called_ne_nil (hd : d.Sound) {x : Message × GameId} (hx : d.opened[n]? = some x) :
    entriesOf n d.called ≠ [] := by
  intro hnil
  have hfirst := hd.first n x.1 x.2 hx
  rw [hnil] at hfirst
  cases hfirst

theorem ended_of_ends {e : Desk} {s : Session} {now : Nat} {a : Session.Act} {bye : List Message}
    (he : e.Sound) (hrun : start.run acts = some e) (hs : e.games.sessions.get? n = some s)
    (hends : s.Ends now a bye) :
    Ended start (acts ++ [.play now n a]) n s.game.id
      (e.games.underway n ++ bye ++ [s.game.deleted]) := by
  have hlive := (he.threads n).live s hs (Session.failed_eq_false hends.act_eq)
  refine .of_run rfl hrun hs rfl hends (fun ha => ?_) rfl (fun o ho => ?_) s.game.players_sorted ?_
  · subst ha
    cases hends with
    | halted runs cancelled => exact (he.stopped n s hs).1 cancelled
  · obtain ho | ho := List.mem_append.1 ho
    · exact hlive.lasting o ho
    · cases hends with
      | deleted | idle => simp [(Game.mem_leaveAll ho).2]
      | halted => cases ho
  · have hspared : s.game.leavers (e.games.underway n) = [] :=
      Game.leavers_eq_nil fun o ho hk => (hlive.spared o ho hk).2
    rw [List.append_assoc, Game.leavers_append, hends.leavers, hspared, List.nil_append]

theorem ended_run {r : Registry} (h : r.Unopened)
    (hrun : Desk.run { games := r } acts = some d) (hq : d.opened[n]? = some (q, id))
    (hs : d.games.sessions.get? n = none) :
    Ended { games := r } acts n id (d.games.underway n) := by
  refine run_induction (d := { games := r }) (P := fun acts d => d.opened[n]? = some (q, id) →
    d.games.sessions.get? n = none → Ended { games := r } acts n id (d.games.underway n))
    (fun hq => by cases hq) (fun acts e a e' answer he ih ha hq hs' => ?_) hrun hq hs
  have hsound := sound_run h he
  have hdoes := does_act hsound.zero ha
  cases hs : e.games.sessions.get? n with
  | some s =>
    obtain ⟨now, a, bye, rfl, hends, hsaid⟩ := hdoes.ends hs hs'
    obtain ⟨q', hq'⟩ := hsound.named n s hs
    obtain ⟨-, rfl⟩ := Prod.mk.inj (Option.some.inj ((hdoes.opens hq').symm.trans hq))
    rw [hsaid]
    exact ended_of_ends hsound he hs hends
  | none =>
    cases hn : e.opened[n]? with
    | none =>
      obtain ⟨s, hs⟩ := hdoes.lives hn hq hsound
      cases hs.symm.trans hs'
    | some x =>
      obtain rfl := Option.some.inj ((hdoes.opens hn).symm.trans hq)
      have hsaid : e'.games.underway n = e.games.underway n :=
        (hdoes.next (fun _ => hsound.blank) n).silent (hsound.called_ne_nil hn)
          (congrArg (Option.any _) hs)
      rw [hsaid]
      exact (ih hn hs).more a

theorem settings_run {r : Registry} (h : r.Unopened)
    (hrun : Desk.run { games := r } acts = some d) :
    d.games.settings = r.settings ∧ d.games.capacity = r.capacity :=
  run_induction (P := fun _ d => d.games.settings = r.settings ∧ d.games.capacity = r.capacity)
    ⟨rfl, rfl⟩ (fun _ _ _ _ _ he ih ha =>
      have hdoes := does_act (sound_run h he).zero ha
      ⟨hdoes.settings.trans ih.1, hdoes.capacity.trans ih.2⟩) hrun

theorem failed_of_fails {r : Registry} {e : Desk} {s : Session} {now : Nat} {rest : List Message}
    (h : r.Unopened) (hrun : Desk.run { games := r } acts = some e)
    (hs : e.games.sessions.get? n = some s) (hruns : s.failed = false) (hnext : s.inbox = m :: rest)
    (hover : s.deadlineAfter? m.kind now = none) :
    Failed { games := r } (acts ++ [.play now n .handle]) n s.game.id
      (e.games.underway n ++ (s.game.handle m).out) := by
  have he := sound_run h hrun
  have hlive := (he.threads n).live s hs hruns
  obtain ⟨hcounts, hover⟩ := Session.deadlineAfter?_eq_none.1 hover
  rw [he.setting n s hs, (settings_run h hrun).1] at hover
  refine .of_run rfl hrun hs hruns rfl hnext hcounts hover rfl fun o ho => ?_
  obtain ho | ho := List.mem_append.1 ho
  · exact hlive.lasting o ho
  · exact Game.lasting_handle ho

theorem failed_run {r : Registry} (h : r.Unopened) {s : Session}
    (hrun : Desk.run { games := r } acts = some d) (hs : d.games.sessions.get? n = some s)
    (hfailed : s.failed) : Failed { games := r } acts n s.game.id (d.games.underway n) := by
  refine run_induction (d := { games := r }) (P := fun acts d => ∀ s,
    d.games.sessions.get? n = some s → s.failed →
      Failed { games := r } acts n s.game.id (d.games.underway n))
    (fun s hs => by rw [h.sessions] at hs; cases hs)
    (fun acts e a e' answer he ih ha s' hs' hfailed => ?_) hrun s hs hfailed
  have hsound := sound_run h he
  have hdoes := does_act hsound.zero ha
  have hnext := hdoes.next (fun _ => hsound.blank) n
  cases hs : e.games.sessions.get? n with
  | none => cases (hnext.fresh hs hs').symm.trans hfailed
  | some s =>
    obtain ⟨q, hq⟩ := hsound.named n s hs
    obtain ⟨q', hq'⟩ := (hdoes.sound hsound).named n s' hs'
    obtain ⟨-, hid⟩ := Prod.mk.inj (Option.some.inj ((hdoes.opens hq).symm.trans hq'))
    rw [← hid]
    by_cases hruns : s.failed
    · have hsaid : e'.games.underway n = e.games.underway n :=
        hnext.silent (hsound.called_ne_nil hq) (by simp [thread, hs, hruns])
      rw [hsaid]
      exact (ih s hs hruns).more a
    · rw [Bool.not_eq_true] at hruns
      obtain ⟨now, m, rest, rfl, hinbox, hover, hsaid⟩ := hdoes.fails hs hruns hs' hfailed
      rw [hsaid]
      exact failed_of_fails h he hs hruns hinbox hover

def asked (d : Desk) : Act → Option Message
  | .forward m => some m
  | .deliver => d.waiting.map (·.2)
  | _ => none

/-- How messages are answered: a message can be forwarded as soon as no other call waits, each
answer is what the games at that moment say, and no call needs to wait for more than one message to
be handled. -/
structure Answers (d : Desk) : Prop where
  calls : ∀ m, d.waiting = none → (∃ answer, d.act (.forward m) = some (d, some answer)) ∨
    ∃ n d', d.act (.forward m) = some (d', none) ∧ d'.waiting = some (n, m)
  exact : ∀ a m d' answer, d.asked a = some m → d.act a = some (d', some answer) →
    answer = d.games.verdict m
  completes : ∀ n m, d.waiting = some (n, m) →
    (∃ d', d.act .deliver = some (d', some (d.games.verdict m))) ∨
    ∀ now, ∃ d', d.act (.play now n .handle) = some (d', none) ∧
      ∃ d'', d'.act .deliver = some (d'', some (d'.games.verdict m))

theorem verdict_of_find {r : Registry} {e : RegistryError} (h : r.find m = .error e) :
    r.verdict m = .error e := by
  rw [Registry.find] at h
  rw [Registry.verdict]
  cases hid : m.gameId with
  | none =>
    rw [hid] at h
    cases h
    rfl
  | some id =>
    rw [hid] at h
    dsimp only at h ⊢
    cases hroom : r.rooms.get? id with
    | none =>
      rw [hroom] at h
      cases h
      rfl
    | some n =>
      rw [hroom] at h
      cases h

theorem Sound.verdict (hd : d.Sound) (hw : d.waiting = some (n, m)) :
    d.games.verdict m = if d.games.runs n then .ok ()
      else .error (.gameClosed (m.gameId.getD 0)) := by
  obtain ⟨id, hid, hroom⟩ := hd.waiting n m hw
  rw [Registry.verdict, hid]
  dsimp only
  rw [hroom]
  rfl

theorem Sound.deliver (hd : d.Sound) (hw : d.waiting = some (n, m))
    (hspace : ∀ s, d.games.sessions.get? n = some s → s.failed = false →
      s.inbox.length < d.games.capacity) :
    ∃ d', d.act .deliver = some (d', some (d.games.verdict m)) := by
  rw [hd.verdict hw, act, hw]
  dsimp only
  rw [Registry.deliver, Registry.runs]
  cases hs : d.games.sessions.get? n with
  | none => exact ⟨_, rfl⟩
  | some s =>
    dsimp only
    rw [Option.any_some]
    cases hruns : s.failed with
    | true => exact ⟨_, rfl⟩
    | false =>
      rw [if_neg Bool.false_ne_true, if_pos (hspace s hs hruns)]
      exact ⟨_, rfl⟩

theorem Sound.makes_space (hd : d.Sound) (hcapacity : 0 < d.games.capacity) {s : Session}
    (hs : d.games.sessions.get? n = some s) (hruns : s.failed = false)
    (hfull : d.games.capacity ≤ s.inbox.length) (now : Nat) :
    ∃ d', d.act (.play now n .handle) = some (d', none) ∧ d'.waiting = d.waiting ∧
      ∀ s', d'.games.sessions.get? n = some s' → s'.failed = false →
        s'.inbox.length < d'.games.capacity := by
  have hspace := ((hd.threads n).live s hs hruns).space
  obtain ⟨m, rest, hnext⟩ := List.exists_cons_of_length_pos (Nat.lt_of_lt_of_le hcapacity hfull)
  obtain ⟨r, hr⟩ := Registry.handle_possible hs hruns hnext now
  refine ⟨_, congrArg (Option.map _) hr, rfl, fun s' hs' hruns' => ?_⟩
  obtain ⟨s₀, result', hacts', hplays⟩ := Registry.act_eq_some hr
  obtain rfl := Option.some.inj (hs.symm.trans hplays.session)
  dsimp only at hs' ⊢
  rw [(Registry.fixed_act hr).1]
  rw [hplays.sessions, if_pos rfl] at hs'
  cases Session.acts_act hacts' with
  | handled act next keep lasts session =>
    obtain rfl := Option.some.inj (session.symm.trans hs')
    rw [next, List.length_cons] at hspace
    exact hspace
  | failed act next late session =>
    obtain rfl := Option.some.inj (session.symm.trans hs')
    cases hruns'
  | ended session => cases session.symm.trans hs'

theorem Sound.answers (hd : d.Sound) (hcapacity : 0 < d.games.capacity) : d.Answers where
  calls m hfree := by
    simp only [act, hfree, Option.isSome_none, Bool.false_eq_true, if_false]
    cases d.games.find m with
    | error e => exact .inl ⟨_, rfl⟩
    | ok n => exact .inr ⟨n, _, rfl, rfl⟩
  exact a m d' answer hasked ha := by
    cases does_act hd.zero ha with
    | spoilt => cases hasked
    | unfound free find =>
      cases hasked
      exact (verdict_of_find find).symm
    | delivered next live runs =>
      rw [asked, next] at hasked
      cases hasked
      rw [hd.verdict next, Registry.runs, live, Option.any_some, runs]
      rfl
    | closed next ended =>
      rw [asked, next] at hasked
      cases hasked
      rw [hd.verdict next, ended]
      rfl
  completes n m hw := by
    by_cases hspace : ∀ s, d.games.sessions.get? n = some s → s.failed = false →
        s.inbox.length < d.games.capacity
    · exact .inl (hd.deliver hw hspace)
    · simp only [not_forall, Nat.not_lt] at hspace
      obtain ⟨s, hs, hruns, hfull⟩ := hspace
      refine .inr fun now => ?_
      obtain ⟨d', hplay, hwaiting, hspace⟩ := hd.makes_space hcapacity hs hruns hfull now
      exact ⟨d', hplay,
        ((does_act hd.zero hplay).sound hd).deliver (hwaiting.trans hw) hspace⟩

/-- Message `m` was called for session `n`, which request `q` opened under an id: either it names
this id and was forwarded when the id was that of the session, or it is the join that goes with the
request. -/
def Calls (start : Desk) (acts : List Act) (n : Nat) (q : Message) (id : GameId) (m : Message) :
    Prop :=
  ∃ before a rest e, acts = before ++ a :: rest ∧ start.run before = some e ∧
    (a = .forward m ∧ m.gameId = some id ∧ e.games.rooms.get? id = some n ∨
      ∃ now, a = .create now q ∧ m = q.joining id ∧ n = e.games.started)

/-- What becomes of the game that request `q` opened as session `n` under an id. It handles, each
once and in order, the first of the messages that were delivered to it, which are some of those that
were called for it, and begin with the join of the player who asked for the game. -/
structure Serves (start : Desk) (acts : List Act) (d : Desk) (n : Nat) (q : Message)
    (id : GameId) : Prop where
  handled : entriesOf n d.handled <+: entriesOf n d.delivered
  delivered : (entriesOf n d.delivered).Sublist (entriesOf n d.called)
  called : ∀ m ∈ entriesOf n d.called, Calls start acts n q id m
  first : ∀ m, (entriesOf n d.delivered).head? = some m → m = q.joining id
  lives : ∀ s, d.games.sessions.get? n = some s → s.failed = false → s.game.id = id ∧
    entriesOf n d.handled ++ s.inbox = entriesOf n d.delivered ∧
    (∀ o ∈ d.games.underway n, o.kind ≠ .gameDeleted) ∧ s.game.leavers (d.games.underway n) = []
  ends : d.games.sessions.get? n = none → Ended start acts n id (d.games.underway n)
  fails : ∀ s, d.games.sessions.get? n = some s → s.failed →
    Failed start acts n id (d.games.underway n)

theorem Calls.more (h : Calls start acts n q id m) (a : Act) :
    Calls start (acts ++ [a]) n q id m := by
  obtain ⟨before, b, rest, e, hsplit, hrun, hcall⟩ := h
  exact ⟨before, b, rest ++ [a], e, by rw [hsplit, List.append_assoc, List.cons_append], hrun,
    hcall⟩

theorem Does.calls_eq (h : d.Does a d' answer) (hd : d.Sound) (hrun : start.run acts = some d)
    (hq : d'.opened[n]? = some (q, id)) (hm : (n, m) ∈ d'.called) :
    (n, m) ∈ d.called ∧ d.opened[n]? = some (q, id) ∨ Calls start (acts ++ [a]) n q id m := by
  have hold (hm : (n, m) ∈ d.called) : (n, m) ∈ d.called ∧ d.opened[n]? = some (q, id) := by
    obtain ⟨q', id', hq', -⟩ := hd.calls n m hm
    exact ⟨hm, hq'.trans ((h.opens hq').symm.trans hq)⟩
  cases h with
  | @opened now q' =>
    obtain hm | hm := List.mem_append.1 hm
    · exact .inl (hold hm)
    · obtain ⟨rfl, rfl⟩ := Prod.mk.inj (List.mem_singleton.1 hm)
      rw [← hd.count, List.getElem?_concat_length] at hq
      obtain ⟨rfl, rfl⟩ := Prod.mk.inj (Option.some.inj hq)
      exact .inr ⟨acts, _, [], d, rfl, hrun, .inr ⟨now, rfl, rfl, rfl⟩⟩
  | called free find =>
    obtain hm | hm := List.mem_append.1 hm
    · exact .inl (hold hm)
    · obtain ⟨rfl, rfl⟩ := Prod.mk.inj (List.mem_singleton.1 hm)
      obtain ⟨id', hid, hroom⟩ := Registry.find_eq_ok.1 find
      obtain ⟨q', hq'⟩ := hd.rooms id' _ hroom
      obtain ⟨rfl, rfl⟩ := Prod.mk.inj (Option.some.inj (hq'.symm.trans hq))
      exact .inr ⟨acts, _, [], d, rfl, hrun, .inl ⟨rfl, hid, hroom⟩⟩
  | _ => exact .inl (hold hm)

theorem calls_run {r : Registry} (h : r.Unopened) (hrun : Desk.run { games := r } acts = some d)
    (hq : d.opened[n]? = some (q, id)) (hm : (n, m) ∈ d.called) :
    Calls { games := r } acts n q id m := by
  refine run_induction (d := { games := r }) (P := fun acts d => d.opened[n]? = some (q, id) →
    (n, m) ∈ d.called → Calls { games := r } acts n q id m)
    (fun hq => by cases hq) (fun acts e a e' answer he ih ha hq hm => ?_) hrun hq hm
  have hsound := sound_run h he
  obtain ⟨hm, hq⟩ | hcalls := (does_act hsound.zero ha).calls_eq hsound he hq hm
  · exact (ih hq hm).more a
  · exact hcalls

theorem serves_run {r : Registry} (h : r.Unopened) (hrun : Desk.run { games := r } acts = some d)
    (hq : d.opened[n]? = some (q, id)) : Serves { games := r } acts d n q id := by
  have hd := sound_run h hrun
  have hthread := hd.threads n
  refine ⟨hthread.handled, ?_, fun m hm => calls_run h hrun hq (mem_entriesOf.1 hm),
    fun m hm => ?_, fun s hs hruns => ?_, ended_run h hrun hq, fun s hs hfailed => ?_⟩
  · exact (List.sublist_append_left _ _).trans hthread.order
  · have hne : entriesOf n d.delivered ≠ [] := fun hnil => by
      rw [hnil] at hm
      cases hm
    have hfirst : (entriesOf n d.delivered).head? = (entriesOf n d.called).head? :=
      hthread.first hne
    rw [hm, hd.first n q id hq] at hfirst
    exact Option.some.inj hfirst
  · have hlive := hthread.live s hs hruns
    obtain ⟨q', hq'⟩ := hd.named n s hs
    obtain ⟨-, rfl⟩ := Prod.mk.inj (Option.some.inj (hq'.symm.trans hq))
    exact ⟨rfl, hlive.queue, hlive.lasting,
      Game.leavers_eq_nil fun o ho hk => (hlive.spared o ho hk).2⟩
  · obtain ⟨q', hq'⟩ := hd.named n s hs
    obtain ⟨-, rfl⟩ := Prod.mk.inj (Option.some.inj (hq'.symm.trans hq))
    exact failed_run h hrun hs hfailed

def parlour : Registry := { settings := { letters := "CATDOG", handSize := 2 } }

def evening : List Act :=
  [.create 0 {
      kind := .createGame, player := some "ann", grid := some ⟨9, 9⟩, rules := some .standard },
    .deliver, .play 0 0 .handle,
    .forward { kind := .gameChat, player := some "ann", gameId := some 2 },
    .forward { kind := .deleteGame, player := some "ann", gameId := some 1 },
    .deliver, .play 0 0 .handle,
    .forward { kind := .gameChat, player := some "ann", gameId := some 1 }]

/-- If games are idle only after the end of the clock, the first message is the last. -/
example : ∃ d, Desk.run { games := { parlour with
      settings := { parlour.settings with idle := Time.last + 1 } } } (evening.take 5) = some d ∧
    d.games.runs 0 = false ∧
    (d.games.underway 0).map (·.kind) = [.joinGame, .gameInfoChanged] ∧
    d.act .deliver = some ({ d with waiting := none }, some (.error (.gameClosed 1))) :=
  ⟨_, rfl, rfl, rfl, rfl⟩

end Desk

end TileRace
