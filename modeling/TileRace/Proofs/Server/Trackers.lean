import TileRace.Proofs.Server.Connections
import TileRace.Proofs.Server.Tracking

namespace TileRace

theorem Lobby.Step.lastSocket_le {l l' : Lobby} {ds ds' : List Duty} {d : Option Deed}
    (hl : l.Consistent) (h : l.Step ds d l' ds') : l.lastSocket ≤ l'.lastSocket := by
  cases h with
  | rest | tell | pass | answer | play | cancel | forget => exact Nat.le_refl _
  | enroll free hok =>
    rw [(enroll_eq_ok hok).1]
    exact Nat.le_succ _
  | hear now => exact Nat.le_of_eq (receives_receive l now _).moved.1.symm
  | route free hm =>
    obtain ⟨-, hr⟩ := hl.reports hm
    exact Nat.le_of_eq hr.moved.1.symm

namespace Server

open Lobby (sees)

/-- An open connection that takes messages will have put its client where the client was sent, once
its queue is written. -/
structure Carries (seen : SocketId → Option GameId) (s : Server) : Prop where
  links {i : Nat} {l} : s.lines[i]? = some (.opened l) → l.accepting →
    l.queue.foldl track l.tracked = seen l.socket
  distinct {i j : Nat} {l l'} : s.lines[i]? = some (.opened l) → s.lines[j]? = some (.opened l') →
    l.socket = l'.socket → i = j
  known {i : Nat} {l} : s.lines[i]? = some (.opened l) → l.socket ≤ s.lobby.lastSocket

/-- The open connections of `s'` were open before, and nothing was sent to them. -/
def Kept (s s' : Server) : Prop :=
  ∀ (i : Nat) l', s'.lines[i]? = some (.opened l') →
    ∃ l, s.lines[i]? = some (.opened l) ∧ l.SameGame l'

variable {s s' : Server} {mv : Move} {m : Message} {socket : SocketId}
  {seen : SocketId → Option GameId} {i : Nat}

theorem Kept.of_eq (h : s'.lines = s.lines) : s.Kept s' := fun _ l hl => ⟨l, h ▸ hl, .refl l⟩

theorem kept_move (h : s.move mv = some s') (enroll : mv ≠ .act .enroll)
    (duty : mv ≠ .act .duty) : s.Kept s' := by
  intro i l' hl'
  have hbefalls := (turns_move h).befalls i
  rw [link?_eq_some.2 hl'] at hbefalls
  generalize ho : s.link? i = o at hbefalls
  cases hbefalls with
  | outside houtside =>
    obtain hsame | ⟨_, _, move, -⟩ := houtside.same_or_queued
    · exact ⟨_, link?_eq_some.1 ho, hsame.sameQueue.sameGame⟩
    · exact (duty move).elim
  | acts move act => exact ⟨_, link?_eq_some.1 ho, Link.sameGame_act act⟩
  | opened move => exact (enroll move).elim

theorem Carries.kept (h : s.Carries seen) (hlines : s.Kept s')
    (hlast : s.lobby.lastSocket ≤ s'.lobby.lastSocket) : s'.Carries seen where
  links hi ha := by
    obtain ⟨l, hl, hkeep⟩ := hlines _ _ hi
    obtain ⟨ha, htrack⟩ := hkeep.track ha
    rw [htrack, h.links hl ha, hkeep.socket]
  distinct hi hj he := by
    obtain ⟨l, hl, hkeep⟩ := hlines _ _ hi
    obtain ⟨l', hl', hkeep'⟩ := hlines _ _ hj
    exact h.distinct hl hl' (hkeep.socket.symm.trans (he.trans hkeep'.socket))
  known hi := by
    obtain ⟨l, hl, hkeep⟩ := hlines _ _ hi
    rw [hkeep.socket]
    exact Nat.le_trans (h.known hl) hlast

theorem Carries.set {seen' : SocketId → Option GameId} {l₀ : Link} (h : s.Carries seen)
    (hlines : s'.lines = s.lines.set i (.opened l₀))
    (hlast : s.lobby.lastSocket ≤ s'.lobby.lastSocket) (hl₀ : l₀.socket ≤ s'.lobby.lastSocket)
    (htrack : l₀.accepting → l₀.queue.foldl track l₀.tracked = seen' l₀.socket)
    (hothers : ∀ {j : Nat} {l}, j ≠ i → s.lines[j]? = some (.opened l) →
      l.socket ≠ l₀.socket ∧ seen' l.socket = seen l.socket) : s'.Carries seen' := by
  have hget {j : Nat} {l : Link} (hj : s'.lines[j]? = some (.opened l)) :
      j = i ∧ l = l₀ ∨ j ≠ i ∧ s.lines[j]? = some (.opened l) := by
    rw [hlines, List.getElem?_set] at hj
    split at hj
    · rename_i he
      split at hj
      · exact .inl ⟨he.symm, (Line.opened.inj (Option.some.inj hj)).symm⟩
      · cases hj
    · exact .inr ⟨Ne.symm ‹_›, hj⟩
  refine ⟨fun {j l} hj ha => ?_, fun {j k l l'} hj hk he => ?_, fun {j l} hj => ?_⟩
  · obtain ⟨-, rfl⟩ | ⟨hne, hj⟩ := hget hj
    · exact htrack ha
    · rw [(hothers hne hj).2, h.links hj ha]
  · obtain ⟨rfl, rfl⟩ | ⟨hne, hj⟩ := hget hj <;> obtain ⟨rfl, rfl⟩ | ⟨hne', hk⟩ := hget hk
    · rfl
    · exact ((hothers hne' hk).1 he.symm).elim
    · exact ((hothers hne hj).1 he).elim
    · exact h.distinct hj hk he
  · obtain ⟨-, rfl⟩ | ⟨-, hj⟩ := hget hj
    · exact hl₀
    · exact Nat.le_trans (h.known hj) hlast

theorem sees_tell_of_ne {k : SocketId} (h : socket ≠ k) :
    sees seen [.tell socket m] k = seen k := by
  rw [sees, told_tell, if_neg h]
  rfl

/-- A message that is lost would have been for a connection that takes no messages any more, so
there is nothing to show of it. -/
theorem Carries.lose (h : s.Carries seen) (hlines : s'.lines = s.lines)
    (hlast : s'.lobby.lastSocket = s.lobby.lastSocket)
    (hclosing : ∀ i l, s.lines.findIdx? (isFor socket) = some i →
      s.lines[i]? = some (.opened l) → l.accepting = false) :
    s'.Carries (sees seen [.tell socket m]) := by
  refine ⟨fun {i l} hl ha => ?_, ?_, ?_⟩
  · rw [hlines] at hl
    have hne : socket ≠ l.socket := by
      rintro rfl
      obtain ⟨j, l', hj, hl', hsocket⟩ := findIdx?_isFor hl
      obtain rfl := h.distinct hl hl' hsocket.symm
      obtain rfl := Line.opened.inj (Option.some.inj (hl.symm.trans hl'))
      cases (hclosing _ _ hj hl).symm.trans ha
    rw [h.links hl ha, sees_tell_of_ne hne]
  · rw [hlines]
    exact h.distinct
  · rw [hlines, hlast]
    exact h.known

theorem Carries.queue {l : Link} (h : s.Carries seen) (hl : s.lines[i]? = some (.opened l))
    (ha : l.accepting)
    (hlines : s'.lines = s.lines.set i (.opened { l with queue := l.queue ++ [m] }))
    (hlast : s'.lobby.lastSocket = s.lobby.lastSocket) :
    s'.Carries (sees seen [.tell l.socket m]) := by
  have hknown : l.socket ≤ s'.lobby.lastSocket := hlast.symm ▸ h.known hl
  refine h.set hlines (Nat.le_of_eq hlast.symm) hknown (fun _ => ?_) fun hne hj => ?_
  · rw [List.foldl_append, h.links hl ha, sees, told_tell, if_pos rfl]
  · have hne := fun he => hne (h.distinct hj hl he)
    exact ⟨hne, sees_tell_of_ne (Ne.symm hne)⟩

/-- A new connection has been sent nothing, nor has anything been sent to its number before. -/
theorem Carries.move (h : s.Carries seen) (hs : s.lobby.Tracks seen s.duties)
    (hl : s.lobby.Consistent) (hmv : s.move mv = some s') :
    s'.Carries (sees seen (s.deed? mv).toList) := by
  have hlast := (move_step hmv).lastSocket_le hl
  have hkept (enroll : mv ≠ .act .enroll) (duty : mv ≠ .act .duty)
      (hsees : sees seen (s.deed? mv).toList = seen) :
      s'.Carries (sees seen (s.deed? mv).toList) := by
    rw [hsees]
    exact h.kept (kept_move hmv enroll duty) hlast
  cases does_move hmv with
  | admits free next waits limits =>
    obtain ⟨rfl, -, rfl⟩ := Lobby.enroll_eq_ok limits
    have howed := hs.owed (s.lobby.lastSocket + 1) (.inr (Nat.lt_succ_self _))
    rw [free] at howed
    have hseen : seen (s.lobby.lastSocket + 1) = none :=
      howed.trans (Lobby.gameOf_of_not_contains (Bool.of_not_eq_true fun hc =>
        Nat.not_succ_le_self _ (hs.known hc)))
    refine h.set rfl hlast (Nat.le_refl _) (fun _ => hseen.symm) fun hne hj => ⟨?_, rfl⟩
    exact Nat.ne_of_lt (Nat.lt_succ_of_le (h.known hj))
  | refuses free next waits =>
    refine h.kept (fun j l' hl' => ⟨l', ?_, .refl l'⟩) hlast
    rw [List.getElem?_set] at hl'
    split at hl'
    · split at hl' <;> cases hl'
    · exact hl'
  | skips => exact h.kept (.of_eq rfl) hlast
  | passes due delivered =>
    simp only [deed?, due, delivered]
    exact h.kept (.of_eq rfl) hlast
  | loses due sent closing =>
    rw [sent]
    exact h.lose rfl rfl closing
  | queues due sent found link accepting =>
    rw [sent, ← socket_of_isFor found link]
    exact h.queue link accepting rfl rfl
  | hears free event =>
    refine hkept (by simp) (by simp) ?_
    rw [deed?, event]
    rfl
  | forgets free event =>
    refine hkept (by simp) (by simp) ?_
    rw [deed?, event]
    rfl
  | routes free takes =>
    refine hkept (by simp) (by simp) ?_
    rw [deed?]
    cases s.lobby.games.reports.lookup _ <;> rfl
  | @touches mv i f touch =>
    have hmv (a : Act) : mv ≠ .act a := by
      rintro rfl
      cases touch
    refine hkept (hmv _) (hmv _) ?_
    cases mv <;> first | rfl | cases touch
  | _ => exact hkept (by simp) (by simp) rfl

theorem Fresh.tracks (h : s.Fresh) : s.lobby.Tracks (fun _ => none) s.duties := by
  rw [h.duties]
  refine ⟨fun k _ => ?_, nofun, fun {k} hk => ?_⟩
  · rw [Lobby.gameOf, h.guests]
    rfl
  · rw [h.guests] at hk
    cases hk

theorem Fresh.carries (h : s.Fresh) : s.Carries fun _ => none := by
  have hnone {i : Nat} {x : Line} : s.lines[i]? ≠ some x := by
    rw [h.lines]
    exact nofun
  exact ⟨fun hi => (hnone hi).elim, fun hi => (hnone hi).elim, fun hi => (hnone hi).elim⟩

theorem trackers_run {mvs : List Move} (hl : s.lobby.Consistent)
    (ht : s.lobby.Tracks seen s.duties) (hc : s.Carries seen) (hrun : s.run mvs = some s') :
    s'.lobby.Tracks (sees seen (s.deeds mvs)) s'.duties ∧
      s'.Carries (sees seen (s.deeds mvs)) := by
  -- what was seen so far is carried along, and a move adds what it shows
  induction mvs generalizing s seen with
  | nil => exact Option.some.inj hrun ▸ ⟨ht, hc⟩
  | cons mv mvs ih =>
    obtain ⟨t, hmv, hrun⟩ := run_cons.1 hrun
    have hstep := move_step hmv
    rw [deeds_cons hmv, Lobby.sees_append]
    exact ih (hl.step hstep) (ht.step hl hstep) (hc.move ht hl hmv) hrun

/-- The lobby holds for every connection the game that the messages sent to it lead to, and so does
the connection itself when it has written them. -/
theorem trackers_agree {s₀ : Server} {mvs : List Move} {guest : Guest} (h₀ : s₀.Fresh)
    (hrun : s₀.run mvs = some s) (hg : s.lobby.guests.get? socket = some guest) :
    (told socket (s₀.deeds mvs) ++ owed socket s.duties).foldl track none = guest.game ∧
    (s.duties = [] → (told socket (s₀.deeds mvs)).foldl track none = guest.game) ∧
    ∀ {i : Nat} {link : Link}, s.lines[i]? = some (.opened link) → link.socket = socket →
      link.accepting → (link.queue ++ owed socket s.duties).foldl track link.tracked = guest.game := by
  obtain ⟨ht, hc⟩ := trackers_run h₀.consistent h₀.tracks h₀.carries hrun
  have hgame : s.lobby.gameOf socket = guest.game := by
    rw [Lobby.gameOf, hg]
    rfl
  have hagree := ht.owed socket (.inl (by rw [Table.contains, hg]; rfl))
  rw [hgame] at hagree
  refine ⟨?_, fun hds => ?_, fun hi hs ha => ?_⟩
  · rwa [List.foldl_append]
  · rwa [hds] at hagree
  · rw [List.foldl_append, hc.links hi ha, hs, hagree]

theorem trackers_agree_seating : ∃ s guest, vacant.Fresh ∧
    vacant.run (arrival ++ seating) = some s ∧ s.lobby.guests.get? 1 = some guest ∧
    guest.game = some 1 ∧ s.duties = [] ∧
    (told 1 (vacant.deeds (arrival ++ seating))).foldl track none = guest.game := by
  have hrun : vacant.run (arrival ++ seating) = some _ := rfl
  obtain ⟨-, hagree, -⟩ := trackers_agree fresh_vacant hrun (rfl : Table.get? _ 1 = some _)
  exact ⟨_, _, fresh_vacant, hrun, rfl, rfl, rfl, hagree rfl⟩

end Server

end TileRace
