import TileRace.Proofs.Registry.Desk

namespace TileRace

namespace Thread

variable {capacity : Nat} {t t' : Thread} {s : Session}

/-- A session that runs has handled what was delivered to it but for what is in its inbox, has not
said that it is gone, and has told no player to leave. -/
structure Live (capacity : Nat) (t : Thread) (s : Session) : Prop where
  queue : t.handled ++ s.inbox = t.delivered
  first : (t.delivered ++ t.waiting).head? = t.called.head?
  space : s.inbox.length ≤ capacity
  lasting : ∀ o ∈ t.said, o.kind ≠ .gameDeleted
  spared : ∀ o ∈ t.said, o.kind = .leaveGame →
    s.game.Shut ∧ ∀ x ∈ s.game.players, o.player ≠ some x

/-- Calls are delivered in order, and handled in order. -/
structure Sound (capacity : Nat) (t : Thread) : Prop where
  begun : t.called = [] → t = {}
  order : (t.delivered ++ t.waiting).Sublist t.called
  first : t.delivered ≠ [] → t.delivered.head? = t.called.head?
  handled : t.handled <+: t.delivered
  live : ∀ s, t.session = some s → s.failed = false → t.Live capacity s

theorem sound_blank (capacity : Nat) : ({} : Thread).Sound capacity :=
  ⟨fun _ => rfl, .slnil, fun h => (h rfl).elim, List.prefix_rfl, fun _ hs => nomatch hs⟩

theorem Sound.called_ne_nil (h : t.Sound capacity) (hs : t.session = some s) : t.called ≠ [] := by
  intro hnil
  rw [h.begun hnil] at hs
  cases hs

theorem Live.play {m : Message} {rest : List Message} {deadline : Nat}
    (h : t.Live capacity s) (hnext : s.inbox = m :: rest) (hkeep : (s.game.handle m).keep) :
    ({ t with
        session := some { s with
          game := (s.game.handle m).game, inbox := rest, deadline := deadline }
        handled := t.handled ++ [m]
        said := t.said ++ (s.game.handle m).out } : Thread).Live capacity
      { s with game := (s.game.handle m).game, inbox := rest, deadline := deadline } where
  queue := by
    rw [← h.queue, hnext, List.append_assoc]
    rfl
  first := h.first
  space := by
    have hspace := h.space
    rw [hnext, List.length_cons] at hspace
    exact Nat.le_of_succ_le hspace
  lasting o ho := by
    obtain ho | ho := List.mem_append.1 ho
    · exact h.lasting o ho
    · exact Game.lasting_handle ho
  spared o ho hk := by
    have hspared : s.game.Shut ∧ ∀ x ∈ s.game.players, o.player ≠ some x := by
      obtain ho | ho := List.mem_append.1 ho
      · exact h.spared o ho hk
      · exact Game.leave_handle hkeep ho hk
    obtain ⟨hshut, hplayers⟩ := hspared.1.handle m
    exact ⟨hshut, hplayers ▸ hspared.2⟩

theorem Sound.play {now : Nat} {a : Session.Act} {result : Session.Result}
    (h : t.Sound capacity) (hs : t.session = some s) (ha : s.act now a = some result) :
    ({ t with
        session := result.session
        handled := t.handled ++ s.takes a
        said := t.said ++ result.out } : Thread).Sound capacity := by
  have hlive := h.live s hs (Session.failed_eq_false ha)
  refine ⟨fun hnil => (h.called_ne_nil hs hnil).elim, h.order, h.first, ?_, fun s' hs' hruns => ?_⟩
  · rw [← hlive.queue]
    refine List.prefix_append_right_inj _ |>.2 ?_
    cases a with
    | handle => exact List.take_prefix 1 _
    | expire | halt => exact List.nil_prefix
  · cases Session.acts_act ha with
    | handled act next keep lasts session out =>
      subst act
      obtain rfl := Option.some.inj (session.symm.trans hs')
      rw [session, out, Session.takes, next, List.take_succ_cons, List.take_zero]
      exact hlive.play next keep
    | failed act next late session =>
      obtain rfl := Option.some.inj (session.symm.trans hs')
      cases hruns
    | ended session => cases session.symm.trans hs'

theorem Sound.call {m : Message} (h : t.Sound capacity) (hfree : t.waiting = []) :
    ({ t with waiting := [m], called := t.called ++ [m] } : Thread).Sound capacity := by
  have horder := h.order
  rw [hfree, List.append_nil] at horder
  have hne (hnil : t.called = []) : t.delivered = [] := List.sublist_nil.1 (hnil ▸ horder)
  refine ⟨fun hnil => by simp at hnil, horder.append (List.Sublist.refl _), fun hd => ?_,
    h.handled, fun s hs hruns => ?_⟩
  · exact (h.first hd).trans (List.head?_append_of_ne_nil _ fun hnil => hd (hne hnil)).symm
  · have hlive := h.live s hs hruns
    have hcalled := h.called_ne_nil hs
    refine ⟨hlive.queue, ?_, hlive.space, hlive.lasting, hlive.spared⟩
    have hfirst := hlive.first
    rw [hfree, List.append_nil] at hfirst
    have hd : t.delivered ≠ [] := fun hnil => by
      rw [hnil] at hfirst
      exact hcalled (List.head?_eq_none_iff.1 hfirst.symm)
    dsimp only
    rw [List.head?_append_of_ne_nil _ hd, List.head?_append_of_ne_nil _ hcalled, hfirst]

theorem Sound.deliver {m : Message} (h : t.Sound capacity) (hs : t.session = some s)
    (hruns : s.failed = false) (hnext : t.waiting = [m]) (hspace : s.inbox.length < capacity) :
    ({ t with
        session := some { s with inbox := s.inbox ++ [m] }
        waiting := []
        delivered := t.delivered ++ [m] } : Thread).Sound capacity := by
  have hlive := h.live s hs hruns
  have hfirst := hlive.first
  have horder := h.order
  rw [hnext] at hfirst horder
  refine ⟨fun hnil => (h.called_ne_nil hs hnil).elim, by simpa using horder, fun _ => hfirst,
    h.handled.trans (List.prefix_append _ _), fun s' hs' _ => ?_⟩
  obtain rfl := Option.some.inj hs'
  refine ⟨?_, by simpa using hfirst, ?_, hlive.lasting, hlive.spared⟩
  · rw [← hlive.queue, List.append_assoc]
  · rw [List.length_append]
    exact hspace

theorem Next.sound (h : t.Next capacity t') (ht : t.Sound capacity) : t'.Sound capacity := by
  cases h with
  | stay => exact ht
  | @opened s m blank players quiet =>
    refine ⟨fun h => (List.cons_ne_nil _ _ h).elim, List.Sublist.refl _, fun h => (h rfl).elim,
      List.prefix_rfl, fun s' hs' _ => ?_⟩
    obtain rfl := Option.some.inj hs'
    refine ⟨quiet, rfl, ?_, fun _ ho => (List.not_mem_nil ho).elim,
      fun _ ho => (List.not_mem_nil ho).elim⟩
    rw [quiet]
    exact Nat.zero_le _
  | called free => exact ht.call free
  | delivered live runs next space => exact ht.deliver live runs next space
  | closed ended =>
    refine ⟨fun hnil => ?_, ?_, ht.first, ht.handled, fun s hs hruns => ?_⟩
    · rw [ht.begun hnil]
    · rw [List.append_nil]
      exact (List.sublist_append_left _ _).trans ht.order
    · rw [hs, Option.any_some, hruns] at ended
      cases ended
  | stopped live =>
    refine ⟨fun hnil => (ht.called_ne_nil live hnil).elim, ht.order, ht.first, ht.handled,
      fun s hs hruns => ?_⟩
    obtain rfl := Option.some.inj hs
    obtain ⟨queue, first, space, lasting, spared⟩ := ht.live _ live hruns
    exact ⟨queue, first, space, lasting, spared⟩
  | played live act => exact ht.play live act

theorem Next.silent (h : t.Next capacity t') (hcalled : t.called ≠ [])
    (hs : t.session.any (!·.failed) = false) : t'.said = t.said := by
  cases h with
  | stay | called | delivered | closed | stopped => rfl
  | opened blank =>
    rw [blank] at hcalled
    exact (hcalled rfl).elim
  | played live act =>
    rw [live, Option.any_some, Session.failed_eq_false act] at hs
    cases hs

theorem Next.fresh (h : t.Next capacity t') (hs : t.session = none) (hs' : t'.session = some s) :
    s.failed = false := by
  cases h with
  | opened blank players quiet runs =>
    cases hs'
    exact runs
  | stay | called | closed => cases hs.symm.trans hs'
  | delivered live | stopped live | played live => cases hs.symm.trans live

end Thread

namespace Desk

variable {d d' : Desk} {a : Act} {answer : Option Answer} {n : Nat} {m : Message}

/-- Every session is one that was opened, in the room of its id as long as there is one; calls are
for the sessions in the rooms they name, and start with the join of the player who asked for the
game. -/
structure Sound (d : Desk) : Prop where
  threads : ∀ n, (d.thread n).Sound d.games.capacity
  count : d.opened.length = d.games.started
  zero : d.games.rooms.get? 0 = none
  rooms : ∀ id n, d.games.rooms.get? id = some n → ∃ q, d.opened[n]? = some (q, id)
  named : ∀ n s, d.games.sessions.get? n = some s → ∃ q, d.opened[n]? = some (q, s.game.id)
  setting : ∀ n s, d.games.sessions.get? n = some s → s.game.settings = d.games.settings
  calls : ∀ n m, (n, m) ∈ d.called → ∃ q id, d.opened[n]? = some (q, id) ∧ m.gameId = some id
  first : ∀ n q id, d.opened[n]? = some (q, id) →
    (entriesOf n d.called).head? = some (q.joining id)
  waiting : ∀ n m, d.waiting = some (n, m) →
    ∃ id, m.gameId = some id ∧ d.games.rooms.get? id = some n
  stopped : ∀ n s, d.games.sessions.get? n = some s →
    (s.cancelled ↔ d.games.cancelled ∨ ¬ ∃ id, d.games.rooms.get? id = some n)

theorem Sound.blank (h : d.Sound) (hn : d.games.started ≤ n) : d.thread n = {} := by
  refine (h.threads n).begun (List.eq_nil_iff_forall_not_mem.2 fun m hm => ?_)
  obtain ⟨q, id, hq, -⟩ := h.calls n m (mem_entriesOf.1 hm)
  have hlt := (List.getElem?_eq_some_iff.1 hq).1
  rw [h.count] at hlt
  exact Nat.not_lt.2 hn hlt

theorem Does.capacity (h : d.Does a d' answer) : d'.games.capacity = d.games.capacity := by
  cases h with
  | removed => exact (Registry.fixed_remove _ _).1
  | played _ _ capacity => exact capacity
  | _ => rfl

theorem Does.settings (h : d.Does a d' answer) : d'.games.settings = d.games.settings := by
  cases h with
  | removed => exact (Registry.fixed_remove _ _).2.2
  | played _ _ _ _ settings => exact settings
  | _ => rfl

theorem Does.count (h : d.Does a d' answer) (hd : d.Sound) :
    d'.opened.length = d'.games.started := by
  cases h with
  | opened => simp [hd.count]
  | removed => exact hd.count.trans (Registry.removes_remove _ _).started.symm
  | played _ plays => exact hd.count.trans plays.started.symm
  | _ => exact hd.count

theorem Does.zero (h : d.Does a d' answer) (hd : d.Sound) : d'.games.rooms.get? 0 = none := by
  cases h with
  | opened free id =>
    rw [Table.get?_insert, if_neg (Ne.symm id)]
    exact hd.zero
  | removed =>
    rw [(Registry.removes_remove _ _).rooms, Table.get?_erase]
    split
    · rfl
    · exact hd.zero
  | played _ plays =>
    rw [plays.rooms]
    exact hd.zero
  | _ => exact hd.zero

theorem Does.opens (h : d.Does a d' answer) {x : Message × GameId} (hx : d.opened[n]? = some x) :
    d'.opened[n]? = some x := by
  cases h with
  | opened =>
    rw [List.getElem?_append_left (List.getElem?_eq_some_iff.1 hx).1]
    exact hx
  | _ => exact hx

theorem Does.rooms (h : d.Does a d' answer) (hd : d.Sound) {id : GameId}
    (hroom : d'.games.rooms.get? id = some n) : ∃ q, d'.opened[n]? = some (q, id) := by
  have hold (hroom : d.games.rooms.get? id = some n) : ∃ q, d'.opened[n]? = some (q, id) :=
    (hd.rooms id n hroom).imp fun q => h.opens
  cases h with
  | @opened now m =>
    rw [Table.get?_insert] at hroom
    split at hroom
    · rename_i hid
      obtain rfl := Option.some.inj hroom
      exact ⟨m, by rw [hid, ← hd.count, List.getElem?_concat_length]⟩
    · exact hold hroom
  | removed =>
    rw [(Registry.removes_remove _ _).rooms, Table.get?_erase] at hroom
    split at hroom
    · cases hroom
    · exact hold hroom
  | played _ plays => exact hold (plays.rooms ▸ hroom)
  | _ => exact hold hroom

theorem Does.session (h : d.Does a d' answer) {s : Session}
    (hs : d'.games.sessions.get? n = some s) :
    (n = d.games.started ∧ s.game.settings = d.games.settings ∧
      ∃ m, d'.opened = d.opened ++ [(m, s.game.id)]) ∨
    ∃ s₀, d.games.sessions.get? n = some s₀ ∧ s.game.id = s₀.game.id ∧
      s.game.settings = s₀.game.settings := by
  cases h with
  | @opened now m s' free id room named players quiet runs setting =>
    rw [Table.get?_insert] at hs
    split at hs
    · rename_i hn
      obtain rfl := Option.some.inj hs
      exact .inl ⟨hn, setting, m, by rw [named]⟩
    · exact .inr ⟨s, hs, rfl, rfl⟩
  | removed =>
    rw [Registry.sessions_remove] at hs
    obtain ⟨s₀, hs₀, rfl⟩ := Option.map_eq_some_iff.1 hs
    exact .inr ⟨s₀, hs₀, by split <;> rfl, by split <;> rfl⟩
  | delivered =>
    rw [Table.get?_modify] at hs
    split at hs
    · obtain ⟨s₀, hs₀, rfl⟩ := Option.map_eq_some_iff.1 hs
      exact .inr ⟨s₀, hs₀, rfl, rfl⟩
    · exact .inr ⟨s, hs, rfl, rfl⟩
  | cancelled =>
    rw [Registry.cancel, Table.get?_map] at hs
    obtain ⟨s₀, hs₀, rfl⟩ := Option.map_eq_some_iff.1 hs
    exact .inr ⟨s₀, hs₀, rfl, rfl⟩
  | played acts plays =>
    rw [plays.sessions] at hs
    split at hs
    · rename_i hn
      exact .inr ⟨_, hn ▸ plays.session, Session.act_id acts hs, Session.act_settings acts hs⟩
    · exact .inr ⟨s, hs, rfl, rfl⟩
  | _ => exact .inr ⟨s, hs, rfl, rfl⟩

theorem Does.named (h : d.Does a d' answer) (hd : d.Sound) {s : Session}
    (hs : d'.games.sessions.get? n = some s) : ∃ q, d'.opened[n]? = some (q, s.game.id) := by
  obtain ⟨rfl, -, m, hopened⟩ | ⟨s₀, hs₀, hid, -⟩ := h.session hs
  · exact ⟨m, by rw [hopened, ← hd.count, List.getElem?_concat_length]⟩
  · exact hid ▸ (hd.named n s₀ hs₀).imp fun q => h.opens

theorem Does.setting (h : d.Does a d' answer) (hd : d.Sound) {s : Session}
    (hs : d'.games.sessions.get? n = some s) : s.game.settings = d'.games.settings := by
  rw [h.settings]
  obtain ⟨-, hsettings, -⟩ | ⟨s₀, hs₀, -, hsettings⟩ := h.session hs
  · exact hsettings
  · exact hsettings.trans (hd.setting n s₀ hs₀)

theorem Does.calls (h : d.Does a d' answer) (hd : d.Sound) (hm : (n, m) ∈ d'.called) :
    ∃ q id, d'.opened[n]? = some (q, id) ∧ m.gameId = some id := by
  have hold (hm : (n, m) ∈ d.called) : ∃ q id, d'.opened[n]? = some (q, id) ∧ m.gameId = some id :=
    (hd.calls n m hm).imp fun q => Exists.imp fun id hq => ⟨h.opens hq.1, hq.2⟩
  cases h with
  | @opened now q =>
    obtain hm | hm := List.mem_append.1 hm
    · exact hold hm
    · obtain ⟨rfl, rfl⟩ := Prod.mk.inj (List.mem_singleton.1 hm)
      exact ⟨q, _, by rw [← hd.count, List.getElem?_concat_length], rfl⟩
  | called free find =>
    obtain hm | hm := List.mem_append.1 hm
    · exact hold hm
    · obtain ⟨rfl, rfl⟩ := Prod.mk.inj (List.mem_singleton.1 hm)
      obtain ⟨id, hid, hroom⟩ := Registry.find_eq_ok.1 find
      exact (hd.rooms id _ hroom).imp fun q hq => ⟨id, hq, hid⟩
  | _ => exact hold hm

theorem Does.first (h : d.Does a d' answer) (hd : d.Sound) {q : Message} {id : GameId}
    (hq : d'.opened[n]? = some (q, id)) :
    (entriesOf n d'.called).head? = some (q.joining id) := by
  have hmore (l : List Message) (hq : d.opened[n]? = some (q, id)) :
      (entriesOf n d.called ++ l).head? = some (q.joining id) := by
    rw [List.head?_append, hd.first n q id hq, Option.some_or]
  cases h with
  | @opened now m =>
    rw [entriesOf_concat]
    rw [List.getElem?_append] at hq
    split at hq
    · exact hmore _ hq
    · rename_i hn
      rw [hd.count, Nat.not_lt] at hn
      obtain ⟨hlt, hq⟩ := List.getElem?_eq_some_iff.1 hq
      have hn' : d.games.started = n := by
        rw [List.length_singleton, hd.count] at hlt
        omega
      have hcalled : entriesOf n d.called = [] := congrArg (·.called) (hd.blank hn)
      rw [List.getElem_singleton] at hq
      obtain ⟨rfl, rfl⟩ := Prod.mk.inj hq
      rw [hcalled, if_pos hn']
      rfl
  | called =>
    rw [entriesOf_concat]
    exact hmore _ hq
  | _ => exact hd.first n q id hq

theorem Does.waiting (h : d.Does a d' answer) (hd : d.Sound) (hm : d'.waiting = some (n, m)) :
    ∃ id, m.gameId = some id ∧ d'.games.rooms.get? id = some n := by
  cases h with
  | opened =>
    obtain ⟨rfl, rfl⟩ := Prod.mk.inj (Option.some.inj hm)
    exact ⟨_, rfl, by rw [Table.get?_insert, if_pos rfl]⟩
  | called free find =>
    obtain ⟨rfl, rfl⟩ := Prod.mk.inj (Option.some.inj hm)
    exact Registry.find_eq_ok.1 find
  | delivered | closed => cases hm
  | removed free => cases free.symm.trans hm
  | played _ plays =>
    rw [plays.rooms]
    exact hd.waiting n m hm
  | _ => exact hd.waiting n m hm

theorem Sound.room_unique (hd : d.Sound) {id id' : GameId} (h : d.games.rooms.get? id = some n)
    (h' : d.games.rooms.get? id' = some n) : id = id' := by
  obtain ⟨q, hq⟩ := hd.rooms id n h
  obtain ⟨q', hq'⟩ := hd.rooms id' n h'
  exact (Prod.mk.inj (Option.some.inj (hq.symm.trans hq'))).2

theorem Does.stopped (h : d.Does a d' answer) (hd : d.Sound) {s : Session}
    (hs : d'.games.sessions.get? n = some s) :
    s.cancelled ↔ d'.games.cancelled ∨ ¬ ∃ id, d'.games.rooms.get? id = some n := by
  cases h with
  | @opened now m s' free id room named players quiet runs setting cancelled =>
    rw [Table.get?_insert] at hs
    split at hs
    · rename_i hn
      obtain rfl := Option.some.inj hs
      have hroom : ∃ id, (d.games.rooms.insert d.games.nextId d.games.started).get? id = some n :=
        ⟨d.games.nextId, by rw [Table.get?_insert, if_pos rfl, hn]⟩
      simp [cancelled, hroom]
    · rename_i hn
      rw [hd.stopped n s hs]
      refine or_congr Iff.rfl (not_congr (exists_congr fun id => ?_))
      rw [Table.get?_insert]
      split
      · rename_i hid
        simp [hid, room, Ne.symm hn]
      · rfl
  | @removed id free =>
    rw [Registry.sessions_remove] at hs
    obtain ⟨s₀, hs₀, rfl⟩ := Option.map_eq_some_iff.1 hs
    rw [(Registry.fixed_remove _ _).2.1, (Registry.removes_remove _ _).rooms]
    split
    · rename_i hroom
      refine iff_of_true rfl (.inr ?_)
      rintro ⟨id', hid'⟩
      rw [Table.get?_erase] at hid'
      split at hid'
      · cases hid'
      · rename_i hne
        exact hne (hd.room_unique hid' hroom)
    · rename_i hroom
      rw [hd.stopped n s₀ hs₀]
      refine or_congr Iff.rfl (not_congr (exists_congr fun id' => ?_))
      rw [Table.get?_erase]
      split
      · rename_i hid
        simp [hid, hroom]
      · rfl
  | delivered =>
    rw [Table.get?_modify] at hs
    split at hs
    · obtain ⟨s₀, hs₀, rfl⟩ := Option.map_eq_some_iff.1 hs
      exact hd.stopped n s₀ hs₀
    · exact hd.stopped n s hs
  | cancelled =>
    rw [Registry.cancel, Table.get?_map] at hs
    obtain ⟨s₀, -, rfl⟩ := Option.map_eq_some_iff.1 hs
    exact iff_of_true rfl (.inl rfl)
  | @played now n' a s₀ result r acts plays capacity cancelled =>
    rw [plays.rooms, cancelled]
    rw [plays.sessions] at hs
    split at hs
    · rename_i hn
      subst hn
      cases Session.acts_act acts with
      | handled act next keep lasts session | failed act next late session =>
        obtain rfl := Option.some.inj (session.symm.trans hs)
        exact hd.stopped n s₀ plays.session
      | ended session => cases session.symm.trans hs
    · exact hd.stopped n s hs
  | _ => exact hd.stopped n s hs

theorem Does.sound (h : d.Does a d' answer) (hd : d.Sound) : d'.Sound where
  threads k := h.capacity ▸ (h.next (fun _ => hd.blank) k).sound (hd.threads k)
  count := h.count hd
  zero := h.zero hd
  rooms _ _ := h.rooms hd
  named _ _ := h.named hd
  setting _ _ := h.setting hd
  calls _ _ := h.calls hd
  first _ _ _ := h.first hd
  waiting _ _ := h.waiting hd
  stopped _ _ := h.stopped hd

theorem sound_start {r : Registry} (h : r.Unopened) : ({ games := r } : Desk).Sound where
  threads n := by
    have hthread : ({ games := r } : Desk).thread n = {} := by
      simp [thread, h.sessions, Registry.underway, h.reports]
    exact hthread ▸ Thread.sound_blank _
  count := h.started.symm
  zero := by rw [h.rooms, Table.get?_empty]
  rooms id n hroom := by
    rw [h.rooms] at hroom
    cases hroom
  named n s hs := by
    rw [h.sessions] at hs
    cases hs
  setting n s hs := by
    rw [h.sessions] at hs
    cases hs
  calls _ _ hm := (List.not_mem_nil hm).elim
  first _ _ _ hq := by cases hq
  waiting _ _ hm := by cases hm
  stopped n s hs := by
    rw [h.sessions] at hs
    cases hs

theorem sound_run {r : Registry} {acts : List Act} (h : r.Unopened)
    (hrun : Desk.run { games := r } acts = some d) : d.Sound :=
  run_induction (P := fun _ => Sound) (sound_start h)
    (fun _ _ _ _ _ _ he ha => (does_act he.zero ha).sound he) hrun

end Desk

end TileRace
