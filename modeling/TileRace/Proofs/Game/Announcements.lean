import TileRace.Proofs.Game.Farewell

namespace TileRace

namespace Game

variable {g g' : Game} {m : Message} {name : String} {out told : List Message} {t : Turn}

/-- What a step from `g` to `g'` says of the game. It announces the new summary if it is new, after
the messages to the players, and no message gives an older one. -/
structure Announces (g : Game) (out : List Message) (g' : Game) : Prop where
  emitted : (∃ o ∈ out, o.kind = .gameInfoChanged) ↔ g'.summary ≠ g.summary
  last : g'.summary ≠ g.summary → ∃ told, out = told ++ [g'.infoChanged] ∧
    ∀ o ∈ told, o.kind ≠ .gameInfoChanged ∧ ∃ x ∈ g'.players, o.player = some x
  current : ∀ o ∈ out, ∀ info, o.game = some info → info = g'.summary

theorem exists_announcement_iff :
    (∃ o ∈ out, o.kind = .gameInfoChanged) ↔ announced out ≠ [] := by
  rw [Ne, announced, List.filter_eq_nil_iff]
  simp

theorem announces_quiet (hsame : g'.summary = g.summary)
    (hquiet : ∀ o ∈ out, o.kind ≠ .gameInfoChanged)
    (hcurrent : ∀ o ∈ out, ∀ info, o.game = some info → info = g'.summary) :
    g.Announces out g' where
  emitted := ⟨fun ⟨o, ho, hk⟩ => (hquiet o ho hk).elim, fun hne => (hne hsame).elim⟩
  last hne := (hne hsame).elim
  current := hcurrent

theorem summary_setBoard (g : Game) (name : String) (b : Board) :
    (g.setBoard name b).summary = g.summary := by
  rw [summary, players_setBoard]
  rfl

theorem summary_ne_of_seated (h : name ∈ g'.players) (absent : g.seats.get? name = none) :
    g'.summary ≠ g.summary := by
  intro hsame
  have hplayers : g'.players = g.players := congrArg Summary.players hsame
  rw [hplayers] at h
  exact Table.not_mem_keys.2 absent h

theorem summary_ne_of_status (h : g'.status ≠ g.status) : g'.summary ≠ g.summary :=
  fun hsame => h (congrArg Summary.status hsame)

theorem infoChanged_congr (hsame : g'.summary = g.summary) : g'.infoChanged = g.infoChanged := by
  have hid : g'.id = g.id := congrArg Summary.id hsame
  rw [infoChanged, hid, hsame, infoChanged]

theorem Progress.emitted (h : g.Progress m t) :
    (∃ o ∈ t.out, o.kind = .gameInfoChanged) ↔ t.game.summary ≠ g.summary := by
  rw [exists_announcement_iff]
  cases h with
  | none redealt award quiet =>
    exact ⟨fun hne => (hne quiet).elim, fun hne => (hne redealt.summary).elim⟩
  | @joined x s now absent room coherent game award news =>
    have hseats : t.game.seats = g.seats.insert x s := congrArg Game.seats game
    have hseated : x ∈ t.game.players := by
      rw [players, hseats, Table.mem_keys, Table.get?_insert, if_pos rfl]
      exact ⟨s, rfl⟩
    exact ⟨fun _ => summary_ne_of_seated hseated absent, fun _ => by simp [news]⟩
  | started now game award news =>
    refine ⟨fun _ => summary_ne_of_status ?_, fun _ => by simp [news]⟩
    rw [game, now]
    rintro ⟨⟩
  | won asks now next pool game award news =>
    refine ⟨fun _ => summary_ne_of_status ?_, fun _ => by simp [news]⟩
    rw [game, now]
    intro he
    change Summary.status _ = _ at he
    rw [he] at next
    cases next

/-- Who joins, starts the game or wins has the players told, and then everybody. -/
theorem Accepted.last (h : g.Accepted m t) (hne : t.game.summary ≠ g.summary) :
    ∃ told, t.out = told ++ [t.game.infoChanged] ∧
      ∀ o ∈ told, o.kind ≠ .gameInfoChanged ∧ ∃ x ∈ t.game.players, o.player = some x := by
  cases h with
  | returned | deleted | chatted | refreshed => exact (hne rfl).elim
  | snagged asks now pool check deal => exact (hne (costless_snag.1 _ deal).summary).elim
  | swapped asks now offer pool remove give =>
    exact (hne ((costless_swap asks.seat remove).1 _ give).summary).elim
  | moved => exact (hne (summary_setBoard _ _ _)).elim
  | resized => exact (hne (summary_setBoard _ _ _)).elim
  | @joined name b kind player absent =>
    refine ⟨_, rfl, fun o ho => ?_⟩
    obtain rfl | ho := List.mem_cons.1 ho
    · refine ⟨by rintro ⟨⟩, name, ?_, rfl⟩
      exact Table.mem_keys.2 ⟨_, (Table.get?_insert _ _ _ _).trans (if_pos rfl)⟩
    · obtain ⟨x, hx, rfl⟩ := List.mem_map.1 ho
      exact ⟨by rintro ⟨⟩, x, (List.mem_filter.1 hx).1, rfl⟩
  | started | won =>
    refine ⟨_, rfl, fun o ho => ?_⟩
    obtain ⟨x, hx, rfl⟩ := mem_toAll.1 ho
    exact ⟨by rintro ⟨⟩, x, hx, rfl⟩

theorem game_leaveAll {o : Message} {reason : String} (ho : o ∈ g.leaveAll reason) :
    o.game = none := by
  obtain ⟨x, -, rfl⟩ := mem_toAll.1 ho
  rfl

theorem Accepted.current (h : g.Accepted m t) {o : Message} (ho : o ∈ t.out) {info : Summary}
    (hinfo : o.game = some info) : info = t.game.summary := by
  cases h with
  | returned | refreshed =>
    rw [List.mem_singleton.1 ho] at hinfo
    exact (Option.some.inj hinfo).symm
  | joined =>
    obtain ho | ho := List.mem_append.1 ho
    · obtain rfl | ho := List.mem_cons.1 ho
      · exact (Option.some.inj hinfo).symm
      · obtain ⟨x, -, rfl⟩ := List.mem_map.1 ho
        cases hinfo
    · rw [List.mem_singleton.1 ho] at hinfo
      exact (Option.some.inj hinfo).symm
  | deleted => cases (game_leaveAll ho).symm.trans hinfo
  | started | won =>
    obtain ho | ho := List.mem_append.1 ho
    · obtain ⟨x, -, rfl⟩ := mem_toAll.1 ho
      exact (Option.some.inj hinfo).symm
    · rw [List.mem_singleton.1 ho] at hinfo
      exact (Option.some.inj hinfo).symm
  | snagged | chatted =>
    obtain ⟨x, -, rfl⟩ := List.mem_map.1 ho
    cases hinfo
  | swapped =>
    obtain rfl | ho := List.mem_cons.1 ho
    · cases hinfo
    · obtain ⟨x, -, rfl⟩ := List.mem_map.1 ho
      cases hinfo
  | moved => cases ho
  | resized =>
    rw [List.mem_singleton.1 ho] at hinfo
    split at hinfo <;> exact (Option.some.inj hinfo).symm

theorem announces_handle (g : Game) (m : Message) :
    g.Announces (g.handle m).out (g.handle m).game := by
  have hemitted := (g.progress m).emitted
  cases h : g.respond m with
  | ok t =>
    rw [handle, h] at hemitted ⊢
    exact ⟨hemitted, (respond_ok h).last, fun o ho info => (respond_ok h).current ho⟩
  | error r =>
    rw [handle, h] at hemitted ⊢
    refine ⟨hemitted, fun hne => (hne (stopped_of_error h).redealt.summary).elim, ?_⟩
    intro o ho info hinfo
    rw [List.mem_singleton.1 ho] at hinfo
    cases hinfo

/-- As long as a game has announced nothing it is as it was, and after that it is as it has
announced last. -/
theorem announced_sends (g : Game) (ms : List Message) :
    announced (g.sends ms) = [] ∧ (g.play ms).summary = g.summary ∨
      (announced (g.sends ms)).getLast? = some (g.play ms).infoChanged := by
  induction ms generalizing g with
  | nil => exact .inl ⟨rfl, rfl⟩
  | cons m ms ih =>
    have hsends : announced (g.sends (m :: ms)) =
        announced (g.handle m).out ++ announced ((g.handle m).game.sends ms) := announced_append
    change _ ∧ ((g.handle m).game.play ms).summary = _ ∨
      _ = some ((g.handle m).game.play ms).infoChanged
    rw [hsends]
    obtain ⟨hrest, hsame⟩ | hlast := ih (g.handle m).game
    · rw [hrest, List.append_nil]
      obtain ⟨hnone, hstep⟩ | hsome := (g.progress m).news
      · exact .inl ⟨hnone, hsame.trans hstep⟩
      · right
        rw [hsome, infoChanged_congr hsame]
        rfl
    · right
      rw [List.getLast?_append, hlast]
      rfl

end Game

namespace Session

variable {s : Session} {now : Nat} {a : Act} {r : Result}

theorem Ends.game_eq_none {bye : List Message} (h : s.Ends now a bye) {o : Message} (ho : o ∈ bye) :
    o.kind = .leaveGame ∧ o.game = none := by
  cases h with
  | deleted | idle => exact ⟨(Game.mem_leaveAll ho).2, Game.game_leaveAll ho⟩
  | halted => cases ho

theorem act_announces (h : s.act now a = some r) :
    ∃ g', s.game.Announces r.out g' ∧ ∀ s', r.session = some s' → s'.game = g' := by
  cases acts_act h with
  | handled act next keep lasts session out | failed act next late session out =>
    refine ⟨_, out ▸ s.game.announces_handle _, fun s' hs' => ?_⟩
    rw [← Option.some.inj (session.symm.trans hs')]
  | ended session ends out =>
    refine ⟨s.game, Game.announces_quiet rfl (fun o ho => ?_) fun o ho info hinfo => ?_,
      fun s' hs' => by cases session.symm.trans hs'⟩
    · rw [out] at ho
      obtain ho | ho := List.mem_append.1 ho
      · simp [ends.game_eq_none ho]
      · rw [List.mem_singleton.1 ho]
        rintro ⟨⟩
    · rw [out] at ho
      obtain ho | ho := List.mem_append.1 ho
      · cases (ends.game_eq_none ho).2.symm.trans hinfo
      · rw [List.mem_singleton.1 ho] at hinfo
        exact (Option.some.inj hinfo).symm

end Session

namespace Game

/-- Who listens to the announcements of a game that has players always knows its summary. -/
theorem announcements_exact {id : GameId} {settings : Settings} {rules : Rules} {grid : Grid}
    {words : Dictionary} {createdAt : UInt64} {g : Game}
    (h : setUp id settings rules grid words createdAt = .ok g) (ms : List Message) :
    (∀ m, (g.play ms).Announces ((g.play ms).handle m).out ((g.play ms).handle m).game) ∧
    ((g.play ms).players ≠ [] → ∃ o, (announced (g.sends ms)).getLast? = some o ∧
      o.game = some (g.play ms).summary) ∧
    (∀ (s : Session) (now : Nat) (a : Session.Act) (r : Session.Result), s.game = g.play ms →
      s.act now a = some r →
      ∃ g', (g.play ms).Announces r.out g' ∧ ∀ s', r.session = some s' → s'.game = g') := by
  refine ⟨(g.play ms).announces_handle, fun hplayers => ?_, fun s now a r hs hr => ?_⟩
  · obtain ⟨-, hsame⟩ | hlast := g.announced_sends ms
    · have hnew : g.players = [] := by
        obtain rfl := setUp_eq_ok h
        rfl
      have hplay : (g.play ms).players = g.players := congrArg Summary.players hsame
      exact (hplayers (hplay.trans hnew)).elim
    · exact ⟨_, hlast, rfl⟩
  · rw [← hs]
    exact Session.act_announces hr

theorem announcements_exact_catRun : ∃ g,
    setUp 1 { letters := "CATDOG", handSize := 3 } .standard .standard ⟨["CAT"]⟩ 0 = .ok g ∧
    (∃ o, (announced (g.sends (catRun ++ [finishing]))).getLast? = some o ∧
      o.game = some (g.play (catRun ++ [finishing])).summary) ∧
    (announced (g.sends (catRun ++ [finishing]))).length = 4 := by
  have h : setUp 1 { letters := "CATDOG", handSize := 3 } .standard .standard ⟨["CAT"]⟩ 0 =
    .ok _ := rfl
  obtain ⟨-, hlast, -⟩ := announcements_exact h (catRun ++ [finishing])
  have hplayers : (_ : List String) ≠ [] := List.cons_ne_nil "ann" ["bob"]
  exact ⟨_, h, hlast hplayers, rfl⟩

end Game

end TileRace
