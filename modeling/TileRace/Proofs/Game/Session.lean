import TileRace.Game.Session
import TileRace.Proofs.Game.Progress

namespace TileRace

def isJoin (socket : SocketId) (m : Message) : Bool := m.kind = .joinGame ∧ m.socket = some socket

theorem countP_isJoin_of_ne {ms : List Message} (h : ∀ m ∈ ms, m.kind ≠ .joinGame)
    (socket : SocketId) : ms.countP (isJoin socket) = 0 :=
  List.countP_eq_zero.2 fun m hm hj => h m hm (of_decide_eq_true hj).1

theorem countP_isJoin_cons_of_ne {m : Message} {ms : List Message}
    (h : ∀ o ∈ ms, o.kind ≠ .joinGame) (socket : SocketId) :
    (m :: ms).countP (isJoin socket) = [m].countP (isJoin socket) := by
  rw [List.countP_cons, List.countP_cons, countP_isJoin_of_ne h]
  rfl

namespace Game

variable {g g' : Game} {m o : Message} {t : Turn}

/-- What a game says on its way from `g` to `g'`: it always gives its id, it never says that it is
gone, and it announces what has become of it unless that is nothing. -/
structure Tells (g : Game) (out : List Message) (g' : Game) : Prop where
  id : g'.id = g.id
  gameId : ∀ o ∈ out, o.gameId = some g.id
  lasting : ∀ o ∈ out, o.kind ≠ .gameDeleted
  news : announced out = [] ∧ g'.summary = g.summary ∨ announced out = [g'.infoChanged]

theorem Accepted.gameId (h : g.Accepted m t) (ho : o ∈ t.out) : o.gameId = some t.game.id := by
  cases h with
  | returned | refreshed => rw [List.mem_singleton.1 ho]; rfl
  | joined =>
    obtain ho | ho := List.mem_append.1 ho
    · obtain rfl | ho := List.mem_cons.1 ho
      · rfl
      · obtain ⟨x, -, rfl⟩ := List.mem_map.1 ho
        rfl
    · rw [List.mem_singleton.1 ho]
      rfl
  | deleted | chatted | snagged =>
    obtain ⟨x, -, rfl⟩ := List.mem_map.1 ho
    rfl
  | started | won =>
    obtain ho | ho := List.mem_append.1 ho
    · obtain ⟨x, -, rfl⟩ := List.mem_map.1 ho
      rfl
    · rw [List.mem_singleton.1 ho]
      rfl
  | swapped =>
    obtain rfl | ho := List.mem_cons.1 ho
    · rfl
    · obtain ⟨x, -, rfl⟩ := List.mem_map.1 ho
      rfl
  | moved => cases ho
  | resized =>
    rw [List.mem_singleton.1 ho]
    split <;> rfl

theorem Progress.id (h : g.Progress m t) : t.game.id = g.id := by
  cases h with
  | none redealt => exact redealt.id
  | joined now absent room coherent game => rw [game]
  | started now game => rw [game]
  | won asks now next pool game => rw [game]

theorem Progress.news (h : g.Progress m t) :
    announced t.out = [] ∧ t.game.summary = g.summary ∨ announced t.out = [t.game.infoChanged] := by
  cases h with
  | none redealt award quiet => exact .inl ⟨quiet, redealt.summary⟩
  | joined now absent room coherent game award news => exact .inr news
  | started now game award news => exact .inr news
  | won asks now next pool game award news => exact .inr news

theorem gameId_handle (ho : o ∈ (g.handle m).out) : o.gameId = some (g.handle m).game.id := by
  rw [handle] at ho ⊢
  split at ho <;> rename_i h
  · exact (respond_ok h).gameId ho
  · rw [List.mem_singleton.1 ho]
    rfl

theorem lasting_handle (ho : o ∈ (g.handle m).out) : o.kind ≠ .gameDeleted := by
  rw [handle] at ho
  split at ho <;> rename_i h
  · have hasked := (respond_ok h).asked
    obtain hk | hk := (respond_ok h).kind_eq ho
    · rintro he
      rw [← hk, he] at hasked
      simp at hasked
    · rintro he
      rw [he] at hk
      simp at hk
  · rename_i r
    rw [List.mem_singleton.1 ho]
    rcases r.refusal.kind_cases with hk | hk | hk <;> simp [Message.reply, Message.ofKind, hk]

theorem tells_handle (g : Game) (m : Message) : g.Tells (g.handle m).out (g.handle m).game where
  id := (g.progress m).id
  gameId _ ho := (gameId_handle ho).trans (congrArg some (g.progress m).id)
  lasting _ := lasting_handle
  news := (g.progress m).news

theorem tells_nil (g : Game) : g.Tells [] g := ⟨rfl, by simp, by simp, .inl ⟨rfl, rfl⟩⟩

theorem mem_leaveAll {reason : String} (ho : o ∈ g.leaveAll reason) :
    o.gameId = some g.id ∧ o.kind = .leaveGame := by
  obtain ⟨x, -, rfl⟩ := List.mem_map.1 ho
  exact ⟨rfl, rfl⟩

theorem tells_leaveAll (g : Game) (reason : String) : g.Tells (g.leaveAll reason) g := by
  refine ⟨rfl, fun o ho => (mem_leaveAll ho).1, fun o ho => by simp [mem_leaveAll ho], .inl ⟨?_, rfl⟩⟩
  exact announced_eq_nil fun o ho => by simp [mem_leaveAll ho]

theorem Tells.named {out : List Message} (h : g.Tells out g') (ho : o ∈ out)
    (hk : o.kind = .gameInfoChanged) : ∃ info, o.game = some info ∧ info.id = g.id := by
  have ho : o ∈ announced out := List.mem_filter.2 ⟨ho, by simpa using hk⟩
  obtain ⟨hnone, -⟩ | hsome := h.news
  · rw [hnone] at ho
    cases ho
  · rw [hsome] at ho
    rw [List.mem_singleton.1 ho]
    exact ⟨_, rfl, h.id⟩

theorem asked_of_joinGame (ho : o ∈ (g.handle m).out) (hk : o.kind = .joinGame) :
    m.kind = .joinGame := by
  rw [handle] at ho
  split at ho <;> rename_i h
  · obtain he | he := (respond_ok h).kind_eq ho
    · exact he.symm.trans hk
    · rw [hk] at he
      simp at he
  · rename_i r
    rw [List.mem_singleton.1 ho] at hk
    rcases r.refusal.kind_cases with hr | hr | hr <;> simp [Message.reply, Message.ofKind, hr] at hk

theorem Accepted.countP_isJoin (h : g.Accepted m t) (hk : m.kind = .joinGame)
    (socket : SocketId) : t.out.countP (isJoin socket) ≤ [m].countP (isJoin socket) := by
  have hanswer (g : Game) (name : String) (b : Board) :
      [g.boardMessage .joinGame name b m.socket].countP (isJoin socket) =
        [m].countP (isJoin socket) := by
    rw [List.countP_singleton, List.countP_singleton, isJoin, isJoin, hk]
    rfl
  cases h with
  | returned => exact Nat.le_of_eq (hanswer _ _ _)
  | joined =>
    refine Nat.le_trans (Nat.le_of_eq (countP_isJoin_cons_of_ne (fun o ho hj => ?_) socket))
      (Nat.le_of_eq (hanswer _ _ _))
    obtain ho | ho := List.mem_append.1 ho
    · obtain ⟨x, -, rfl⟩ := List.mem_map.1 ho
      cases hj
    · rw [List.mem_singleton.1 ho] at hj
      cases hj
  | deleted asks | started asks | won asks | snagged asks | swapped asks | moved asks
  | chatted asks | refreshed asks | resized asks => cases hk.symm.trans asks.kind

theorem countP_isJoin_handle (g : Game) (m : Message) (socket : SocketId) :
    (g.handle m).out.countP (isJoin socket) ≤ [m].countP (isJoin socket) := by
  by_cases hk : m.kind = .joinGame
  · rw [handle]
    split <;> rename_i h
    · exact (respond_ok h).countP_isJoin hk socket
    · rename_i r
      have hne : isJoin socket { (m.reply r.refusal.kind).withInfo r.refusal.message with
          gameId := some r.game.id } = false := by
        rcases r.refusal.kind_cases with hr | hr | hr <;>
          simp [isJoin, Message.reply, Message.withInfo, Message.ofKind, hr]
      rw [refuse, List.countP_singleton, hne]
      exact Nat.zero_le _
  · rw [countP_isJoin_of_ne fun o ho hj => hk (asked_of_joinGame ho hj)]
    exact Nat.zero_le _

end Game

namespace Session

variable {s : Session} {now : Nat} {a : Act} {r : Result}

theorem failed_eq_false (h : s.act now a = some r) : s.failed = false := by
  unfold act at h
  split at h
  · cases h
  · rename_i hruns
    exact Bool.eq_false_iff.2 hruns

theorem deadlineAfter?_eq_some {k : Kind} {deadline : Nat} :
    s.deadlineAfter? k now = some deadline ↔ k = .refreshGameBoard ∧ deadline = s.deadline ∨
      k ≠ .refreshGameBoard ∧ now + s.game.settings.idle ≤ Time.last ∧
        deadline = now + s.game.settings.idle := by
  rw [deadlineAfter?]
  split
  · rename_i hk
    simp [hk, eq_comm]
  · rename_i hk
    split <;> rename_i hle <;> simp [hk, hle, eq_comm]

theorem deadlineAfter?_eq_none {k : Kind} : s.deadlineAfter? k now = none ↔
    k ≠ .refreshGameBoard ∧ Time.last < now + s.game.settings.idle := by
  rw [deadlineAfter?]
  split
  · rename_i hk
    simp [hk]
  · rename_i hk
    split <;> rename_i hle
    · simp [hle]
    · simp [hk, Nat.lt_of_not_le hle]

/-- What ends a session, and what is said to the players before the last message. -/
inductive Ends (s : Session) (now : Nat) : Act → List Message → Prop where
  | deleted {m rest name seat deadline} (runs : s.failed = false) (next : s.inbox = m :: rest)
    (asks : s.game.Asks m .deleteGame name seat)
    (lasts : s.deadlineAfter? m.kind now = some deadline) :
    Ends s now .handle (s.game.leaveAll s!"{name} deleted the game")
  | idle (runs : s.failed = false) (due : s.deadline ≤ now) :
    Ends s now .expire (s.game.leaveAll idleNotice)
  | halted (runs : s.failed = false) (cancelled : s.cancelled) : Ends s now .halt []

/-- All that an act can do: to handle the next message, to fail after that because the clock ends
before the new deadline, or to end the session. -/
inductive Acts (s : Session) (now : Nat) (a : Act) (r : Result) : Prop where
  | handled {m rest deadline} (act : a = .handle) (next : s.inbox = m :: rest)
    (keep : (s.game.handle m).keep) (lasts : s.deadlineAfter? m.kind now = some deadline)
    (session : r.session = some { s with
      game := (s.game.handle m).game, inbox := rest, deadline })
    (out : r.out = (s.game.handle m).out)
  | failed {m rest} (act : a = .handle) (next : s.inbox = m :: rest)
    (late : s.deadlineAfter? m.kind now = none)
    (session : r.session = some { s with
      game := (s.game.handle m).game, inbox := [], failed := true })
    (out : r.out = (s.game.handle m).out)
  | ended {bye} (session : r.session = none) (ends : s.Ends now a bye)
    (out : r.out = bye ++ [s.game.deleted])

theorem acts_act (h : s.act now a = some r) : s.Acts now a r := by
  have hruns := failed_eq_false h
  unfold act at h
  rw [if_neg (Bool.eq_false_iff.1 hruns)] at h
  cases a with
  | handle =>
    dsimp only at h
    split at h
    · cases h
    rename_i m rest hm
    obtain rfl := Option.some.inj h
    split
    · exact .failed rfl hm ‹_› rfl rfl
    rename_i deadline hlasts
    split
    · exact .handled rfl hm ‹_› hlasts rfl rfl
    · rename_i hk
      rw [Game.handle] at hk ⊢
      cases hr : s.game.respond m with
      | error r =>
        rw [hr] at hk
        exact (hk rfl).elim
      | ok t =>
        rw [hr] at hk
        cases Game.respond_ok hr with
        | deleted asks => exact .ended rfl (.deleted hruns hm asks hlasts) rfl
        | _ => exact (hk rfl).elim
  | expire =>
    dsimp only at h
    split at h
    · rename_i hdue
      obtain rfl := Option.some.inj h
      exact .ended rfl (.idle hruns hdue) rfl
    · cases h
  | halt =>
    dsimp only at h
    split at h
    · rename_i hcancelled
      obtain rfl := Option.some.inj h
      exact .ended rfl (.halted hruns hcancelled) rfl
    · cases h

theorem Ends.act_eq {bye : List Message} (h : s.Ends now a bye) :
    s.act now a = some { session := none, out := bye ++ [s.game.deleted] } := by
  cases h with
  | @deleted m rest name seat deadline runs next asks lasts =>
    have hdelete : s.game.delete m = .ok
        { game := s.game, out := s.game.leaveAll s!"{name} deleted the game", keep := false } := by
      rw [Game.delete, Game.seated_eq_ok.2 ⟨asks.player, asks.seat⟩]
      rfl
    rw [asks.kind] at lasts
    simp only [act, runs, next, Game.handle, Game.respond, asks.kind, hdelete, lasts]
    rfl
  | idle runs due =>
    unfold act
    rw [if_neg (Bool.eq_false_iff.1 runs)]
    exact if_pos due
  | halted runs cancelled =>
    unfold act
    rw [if_neg (Bool.eq_false_iff.1 runs)]
    exact if_pos cancelled

/-- A session goes on with its game, or ends and says so last. -/
theorem act_tells (h : s.act now a = some r) : ∃ out g, s.game.Tells out g ∧
    ((∃ s', r.session = some s' ∧ s'.game = g ∧ r.out = out) ∨
      r.session = none ∧ r.out = out ++ [g.deleted]) := by
  cases acts_act h with
  | handled act next keep lasts session out =>
    exact ⟨_, _, s.game.tells_handle _, .inl ⟨_, session, rfl, out⟩⟩
  | failed act next late session out =>
    exact ⟨_, _, s.game.tells_handle _, .inl ⟨_, session, rfl, out⟩⟩
  | ended session ends out =>
    cases ends with
    | deleted | idle => exact ⟨_, _, s.game.tells_leaveAll _, .inr ⟨session, out⟩⟩
    | halted => exact ⟨_, _, s.game.tells_nil, .inr ⟨session, out⟩⟩

theorem act_id {s' : Session} (h : s.act now a = some r) (hs : r.session = some s') :
    s'.game.id = s.game.id := by
  obtain ⟨out, g, htells, ⟨s'', hs'', rfl, -⟩ | ⟨hnone, -⟩⟩ := act_tells h
  · rw [← Option.some.inj (hs''.symm.trans hs), htells.id]
  · cases hnone.symm.trans hs

theorem act_named {o : Message} (h : s.act now a = some r) (ho : o ∈ r.out) :
    o.gameId = some s.game.id ∧
      (o.kind = .gameInfoChanged → ∃ info, o.game = some info ∧ info.id = s.game.id) := by
  obtain ⟨out, g, htells, ⟨s', -, -, hout⟩ | ⟨-, hout⟩⟩ := act_tells h <;> rw [hout] at ho
  · exact ⟨htells.gameId o ho, htells.named ho⟩
  · obtain ho | ho := List.mem_append.1 ho
    · exact ⟨htells.gameId o ho, htells.named ho⟩
    · rw [List.mem_singleton.1 ho]
      exact ⟨congrArg some htells.id, nofun⟩

theorem act_countP_isJoin (h : s.act now a = some r) (socket : SocketId) :
    ((r.session.map (·.inbox)).getD []).countP (isJoin socket) + r.out.countP (isJoin socket) ≤
      s.inbox.countP (isJoin socket) := by
  have hhandled {m rest} (hm : s.inbox = m :: rest) :
      rest.countP (isJoin socket) + (s.game.handle m).out.countP (isJoin socket) ≤
        s.inbox.countP (isJoin socket) := by
    have hanswer := s.game.countP_isJoin_handle m socket
    have hinbox : s.inbox.countP (isJoin socket) =
        [m].countP (isJoin socket) + rest.countP (isJoin socket) := by
      rw [hm, ← List.countP_append]
      rfl
    omega
  cases acts_act h with
  | handled act next keep lasts session out =>
    rw [session, out]
    exact hhandled next
  | failed act next late session out =>
    rw [session, out]
    dsimp only [Option.map_some, Option.getD_some]
    rw [List.countP_nil, Nat.zero_add]
    exact Nat.le_trans (Nat.le_add_left _ _) (hhandled next)
  | @ended bye session ends out =>
    have hbye : ∀ o ∈ bye ++ [s.game.deleted], o.kind ≠ .joinGame := by
      intro o ho
      obtain ho | ho := List.mem_append.1 ho
      · cases ends with
        | deleted | idle => simp [Game.mem_leaveAll ho]
        | halted => cases ho
      · rw [List.mem_singleton.1 ho]
        exact nofun
    rw [session, out, countP_isJoin_of_ne hbye]
    exact Nat.zero_le _

end Session

end TileRace
