import TileRace.Proofs.Server.Following
import TileRace.Proofs.Server.Journey

namespace TileRace.Server

variable {s s' t t' : Server} {mvs mvs' : List Move} {m : Message} {i n k : Nat} {g : GameId}
  {l : Link}

theorem offered_read (hl : s.link? i = some l) (hm : l.reading? = some m)
    (h : s.move (.act (.line i .readFrame)) = some s') :
    s'.at? (.offered i) = some (l.stamp m) := by
  obtain ⟨l₁, l', e, hl₁, ha, hl', -⟩ := line_move h
  obtain rfl := Option.some.inj (hl.symm.trans hl₁)
  rw [at?, hl']
  cases Link.reads_act ha with
  | read act before after => exact after.trans (by rw [hm]; rfl)
  | offered act | stopped act => cases act
  | kept read => exact (read rfl).elim

theorem room_hear (hl : t.lobby.Consistent) (h : t.move (.act .hear) = some t')
    (hroom : t.lobby.games.rooms.get? g = some n) :
    t'.lobby.games.rooms.get? g = some n := by
  refine ((hl.change (move_step h)).keeps_room hroom).resolve_right fun ⟨o, hdeed, _⟩ => ?_
  obtain ⟨e, he, -⟩ := hear_move h
  rw [deed?, he] at hdeed
  cases e <;> cases hdeed

theorem handled_of_taken (hl : t.lobby.Consistent) (hp : t.at? (.queued 0) = some m)
    (hg : m.gameId = some g) (h : t.move (.act .hear) = some t') (hrun : t'.run mvs = some s)
    (hend : t'.journey t.takenUp mvs = .handled k) (hroom : t.lobby.games.rooms.get? g = some n) :
    k = n ∨ m.kind = .createGame ∧ s.lobby.games.rooms.get? g ≠ some k := by
  obtain ⟨hr, htaken⟩ := takes_up h hp
  rw [htaken] at hend
  have hl' := hl.step (move_step h)
  have hroom' := room_hear hl h hroom
  have hbound {n : Nat} {o answer : Message} {socket : SocketId}
      (hds : t'.duties = [.pass n o socket answer]) : k = n := by
    have hb := bound_of_pass hl' hrun hds
    rwa [hend] at hb
  have hout (hk : k < t'.lobby.games.started) (hne : t'.lobby.games.rooms.get? g ≠ some k) :
      s.lobby.games.rooms.get? g ≠ some k := keeps_out_run hl' hrun hk hne
  generalize t'.lobby = l', hds : t'.duties = ds at hr hend hroom' hout
  cases hr with
  | dropped | left | answered => cases (journey_end (fun _ _ _ => rfl) _ _).symm.trans hend
  | passed sent kind found =>
    left
    rw [Registry.find, hg] at found
    simp only [hroom] at found
    rw [hbound hds, ← Except.ok.inj found]
  | created sent kind game =>
    right
    obtain ⟨session, hopens⟩ := Registry.create_eq_ok game
    obtain rfl : k = t.lobby.games.started := (hbound hds).trans hopens.session
    refine ⟨kind, hout ?_ ?_⟩
    · rw [hopens.registry]
      exact Nat.lt_succ_self _
    · rw [hroom']
      exact fun he => Nat.ne_of_lt (hl.started hroom) (Option.some.inj he)

theorem answered_of_taken (hl : t.lobby.Consistent) (hp : t.at? (.queued 0) = some m)
    (h : t.move (.act .hear) = some t') (hrun : t'.run mvs = some s) {answer : Message}
    (hend : t'.journey t.takenUp mvs = .answered answer) :
    answer.kind = .socketError ∨ m.kind = .createGame ∨ m.kind = .leaveGame ∨
      m.kind = .gameInfos := by
  obtain ⟨hr, htaken⟩ := takes_up h hp
  rw [htaken] at hend
  have hbound {n : Nat} {o a : Message} {socket : SocketId}
      (hds : t'.duties = [.pass n o socket a]) : answer = a := by
    have hb := bound_of_pass (hl.step (move_step h)) hrun hds
    rwa [hend] at hb
  generalize t'.lobby = l', hds : t'.duties = ds at hr hend
  cases hr with
  | dropped => cases (journey_end (fun _ _ _ => rfl) _ _).symm.trans hend
  | created sent kind => exact .inr (.inl kind)
  | left sent kind => exact .inr (.inr (.inl kind))
  | passed => exact .inl (by rw [hbound hds]; rfl)
  | @answered socket a sent kind joins leaves error =>
    have ha : Place.answered a = .answered answer :=
      (journey_end (fun _ _ _ => rfl) _ _).symm.trans hend
    rw [← Place.answered.inj ha]
    by_cases hc : m.kind = .createGame
    · exact .inr (.inl hc)
    · by_cases hi : m.kind = .gameInfos
      · exact .inr (.inr (.inr hi))
      · exact .inl (error hc hi)

/-- A request is handled by the session that its client follows. Only if the lobby takes up the
deletion of that session before the request may another one handle it, and the game that is made
for a request to create one has an id of its own. -/
theorem request_stays {s₀ s₁ : Server} (h₀ : s₀.Fresh) (hrun : s₀.run mvs = some s)
    (hl : s.link? i = some l) (hm : l.reading? = some m) (hk : m.kind ≠ .joinGame)
    (hg : l.tracked = some g) (hread : s.move (.act (.line i .readFrame)) = some s₁)
    (hrun' : s₁.run mvs' = some s') : ∃ n, s₀.lead i mvs = some (some n, g) ∧
    (∀ k, s₁.journey (.offered i) mvs' = .handled k → k = n ∨
      (∃ before after o, mvs' = before ++ .act .hear :: after ∧
        s₁.journey (.offered i) before = .queued 0 ∧
        .route n o ∈ s₀.deeds (mvs ++ .act (.line i .readFrame) :: before) ∧
        o.kind = .gameDeleted) ∨
      m.kind = .createGame ∧ s'.lobby.games.rooms.get? g ≠ some k) ∧
    ∀ answer, s₁.journey (.offered i) mvs' = .answered answer →
      answer.kind = .socketError ∨ m.kind = .createGame ∨ m.kind = .leaveGame ∨
        m.kind = .gameInfos := by
  obtain ⟨⟨v, g'⟩, hlead, hid⟩ := Option.map_eq_some_iff.1 ((lead_game h₀ hrun hl).trans hg)
  obtain rfl : g' = g := hid
  obtain ⟨n, rfl, hroom⟩ := lead_room h₀ hrun hlead
  have hs := consistent_run h₀.consistent hrun
  have hs₁ := hs.step (move_step hread)
  have hoffered := offered_read hl hm hread
  have hstamped : (l.stamp m).gameId = some g' :=
    (if_neg fun h => hk h.1).trans hg
  refine ⟨n, hlead, fun k hend => ?_, fun answer hend => ?_⟩
  · obtain ⟨before, after, t, t', rfl, ht, hbefore, hat, hmv, hafter, hlast⟩ :=
      taken_of_journey hrun' rfl hoffered (by rw [hend]; rfl) (by rw [hend]; exact nofun)
    have htl := consistent_run hs₁ ht
    have hreads : s.run (.act (.line i .readFrame) :: before) = some t :=
      run_cons.2 ⟨s₁, hread, ht⟩
    have hkept : t.lobby.games.rooms.get? g' = some n ∨ ∃ o,
        .route n o ∈ s₀.deeds (mvs ++ .act (.line i .readFrame) :: before) ∧
        o.kind = .gameDeleted := by
      rw [deeds_append hrun]
      obtain hroom | ⟨o, ho, hdeleted⟩ := hroom
      · obtain hroom | ⟨o, ho, hdeleted⟩ := keeps_room_run hs hreads hroom
        · exact .inl hroom
        · exact .inr ⟨o, List.mem_append_right _ ho, hdeleted⟩
      · exact .inr ⟨o, List.mem_append_left _ ho, hdeleted⟩
    obtain hroom | ⟨o, ho, hdeleted⟩ := hkept
    · obtain hsame | hnew :=
        handled_of_taken htl hat hstamped hmv hafter (hlast.trans hend) hroom
      · exact .inl hsame
      · exact .inr (.inr hnew)
    · exact .inr (.inl ⟨before, after, o, rfl, hbefore, ho, hdeleted⟩)
  · obtain ⟨before, after, t, t', -, ht, -, hat, hmv, hafter, hlast⟩ :=
      taken_of_journey hrun' rfl hoffered (by rw [hend]; rfl) (by rw [hend]; exact nofun)
    exact answered_of_taken (consistent_run hs₁ ht) hat hmv hafter (hlast.trans hend)

/-- A player deletes their game, and says something that is read before they learn that it is
gone. -/
def outlived : List Move :=
  arrival ++ seating ++
    [.connect "ann", .act .enroll, .act .duty, .act (.line 1 .writeNext)] ++ say 0 "[4]" ++
    [.act .duty, .act (.game 0 .handle), .send 0 (.data (Text.symbolsOf "[9,\"hello\"]"))]

/-- Meanwhile they ask for another game, which gets the same id. -/
def succeeded : List Move :=
  [.act (.route 0), .act .duty, .act (.line 0 .writeNext), .act (.route 0), .act .duty,
   .act .duty, .act (.line 0 .writeNext), .act (.line 1 .writeNext)] ++
    say 1 "[1,null,null,null,null,null,null,null,null,[9,9],[true,false,2,true]]" ++
    [.act .duty, .act (.game 1 .handle), .act (.line 0 .offer), .act .hear, .act .duty,
     .act (.game 1 .handle)]

theorem request_crosses : ∃ s s₁ s' l m, vacant.Fresh ∧ vacant.run outlived = some s ∧
    s.link? 0 = some l ∧ l.reading? = some m ∧ m.kind = .gameChat ∧ l.tracked = some 1 ∧
    vacant.lead 0 outlived = some (some 0, 1) ∧
    s.move (.act (.line 0 .readFrame)) = some s₁ ∧ s₁.run succeeded = some s' ∧
    s₁.journey (.offered 0) succeeded = .handled 1 := by
  have hrun : vacant.run outlived = some _ := rfl
  exact ⟨_, _, _, _, _, fresh_vacant, hrun, rfl, rfl, rfl, rfl, rfl, rfl, rfl, rfl⟩

def greeting : List Move :=
  arrival ++ seating ++ [.send 0 (.data (Text.symbolsOf "[9,\"hello\"]"))]

def greeted : List Move :=
  [.act (.line 0 .offer), .act .hear, .act .duty, .act (.game 0 .handle)]

theorem request_stays_greeting : ∃ s s₁ s' l m n, vacant.Fresh ∧ vacant.run greeting = some s ∧
    s.link? 0 = some l ∧ l.reading? = some m ∧ m.kind ≠ .joinGame ∧ l.tracked = some 1 ∧
    s.move (.act (.line 0 .readFrame)) = some s₁ ∧ s₁.run greeted = some s' ∧
    s₁.journey (.offered 0) greeted = .handled 0 ∧
    vacant.lead 0 greeting = some (some n, 1) ∧ n = 0 := by
  have hrun : vacant.run greeting = some _ := rfl
  obtain ⟨n, hlead, -⟩ := request_stays fresh_vacant hrun (rfl : link? _ 0 = some _) rfl nofun rfl
    rfl (rfl : run _ greeted = some _)
  have hn : some (some n, (1 : GameId)) = some (some 0, 1) := hlead.symm.trans rfl
  exact ⟨_, _, _, _, _, n, fresh_vacant, hrun, rfl, rfl, nofun, rfl, rfl, rfl, rfl, hlead,
    Option.some.inj (Prod.mk.inj (Option.some.inj hn)).1⟩

end TileRace.Server
