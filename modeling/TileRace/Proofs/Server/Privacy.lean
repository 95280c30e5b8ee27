import Mathlib.Data.List.Induction
import TileRace.Proofs.Server.Addressing
import TileRace.Proofs.Server.Production

namespace TileRace

def Line.outgoing : Line → List Message
  | .waiting _ c | .refused _ c => c.frames.filterMap Frame.message?
  | .opened l => l.outgoing

namespace Server

structure Personal (s₀ : Server) (mvs : List Move) (name : String) (m : Message) : Prop where
  player : m.player = some name
  made : ∃ g g', s₀.Made mvs m g g'

/-- A message is sent: by the lobby to a connection, or by a connection to its client. -/
inductive Sends (s : Server) : Move → SocketId → Message → Prop where
  | told {mv k m} (deed : s.deed? mv = some (.tell k m)) : Sends s mv k m
  | written {i l m rest} (link : s.link? i = some l) (ready : l.writer = .ready)
    (queue : l.queue = m :: rest) : Sends s (.act (.line i .writeNext)) l.socket m
  | hinted {i l} (link : s.link? i = some l) :
    Sends s (.act (.line i .sendHint)) l.socket (.ofKind .socketHttpPing)

inductive Entitled (s₀ : Server) (mvs : List Move) : Line → Message → Prop where
  | refused {e c m} (discreet : m.Discreet) : Entitled s₀ mvs (.refused e c) m
  | hint {l} : Entitled s₀ mvs (.opened l) (.ofKind .socketHttpPing)
  | told {l m} (told : .tell l.socket m ∈ s₀.deeds mvs)
    (personal : m.Discreet ∨ s₀.Personal mvs l.name m) : Entitled s₀ mvs (.opened l) m

structure Guards (s₀ : Server) (mvs : List Move) (s : Server) : Prop where
  reports {n m} : m ∈ s.lobby.games.underway n → (m.Discreet ∨ ∃ g g', s₀.Made mvs m g g') ∧
    (m.player.isSome → m.kind ≠ .gameInfoChanged ∧ m.kind ≠ .gameDeleted)
  duties {d} : d ∈ s.duties → d.message.Discreet ∨
    ∃ k m name, d = .tell k m ∧ s.lobby.nameOf k = some name ∧ s₀.Personal mvs name m
  lines {i : Nat} {x m} : s.lines[i]? = some x → m ∈ x.outgoing → s₀.Entitled mvs x m

/-- How private the hands of the players are. What tells of tiles or boards has been said by a game:
tiles go to the connections of a player who then has them, and only the end of a game shows all
boards. What a game says to a player goes to the right connections, before anything else is sent;
a connection passes on what was sent to it, and its client sees nothing else of a board. -/
structure Confides (s₀ : Server) (mvs : List Move) (s : Server) : Prop where
  made : ∀ mv k m, s.Sends mv k m → m.ShowsTiles ∨ m.finalBoards.isSome →
    ∃ g g', s₀.Made mvs m g g'
  hands : ∀ mv k m g g', s.Sends mv k m → m.ShowsTiles → s₀.Made mvs m g g' →
    m.gameId = some g'.id ∧ ∃ name, s.lobby.nameOf k = some name ∧ (g'.board? name).isSome ∧
      ∀ tile ∈ m.shown, g'.Owns name tile
  boards : ∀ m g g', s₀.Made mvs m g g' → m.finalBoards.isSome →
    m.gameId = some g'.id ∧ g.status = .inProgress ∧ g'.status ≠ .inProgress
  routed : ∀ n m name s', s.deed? (.act (.route n)) = some (.route n m) → m.player = some name →
    s.move (.act (.route n)) = some s' → ∃ ks, s.lobby.Addresses m name ks ∧
      s'.duties = ks.map (.tell · m) ∧ ∀ mvs' t, s'.run mvs' = some t →
        ks.map (·, m) <+: tellings (s'.deeds mvs') ∨ tellings (s'.deeds mvs') <+: ks.map (·, m)
  passed : ∀ i l m, s.link? i = some l → m ∈ l.outgoing →
    m = .ofKind .socketHttpPing ∨ .tell l.socket m ∈ s₀.deeds mvs
  seen : ∀ i m, .message m ∈ s.unread i → m.Discreet ∨ ∃ l, s.link? i = some l ∧ m ∈ l.outgoing

variable {s₀ s s' : Server} {mv : Move} {mvs : List Move} {m : Message} {name : String}
  {k : SocketId} {i n : Nat} {l l' : Link} {x : Line} {d : Duty}

theorem Personal.append (h : s₀.Personal mvs name m) (mv : Move) :
    s₀.Personal (mvs ++ [mv]) name m := by
  obtain ⟨g, g', hmade⟩ := h.made
  exact ⟨h.player, g, g', hmade.append mv⟩

theorem deeds_concat (hrun : s₀.run mvs = some s) (h : s.move mv = some s') :
    s₀.deeds (mvs ++ [mv]) = s₀.deeds mvs ++ (s.deed? mv).toList := by
  rw [deeds_append hrun, deeds_cons h, deeds, List.append_nil]

theorem Entitled.append (h : s₀.Entitled mvs x m) (hrun : s₀.run mvs = some s)
    (hmove : s.move mv = some s') : s₀.Entitled (mvs ++ [mv]) x m := by
  cases h with
  | refused discreet => exact .refused discreet
  | hint => exact .hint
  | told told personal =>
    refine .told ?_ (personal.imp_right (·.append mv))
    rw [deeds_concat hrun hmove]
    exact List.mem_append_left _ told

theorem Entitled.samePlayer (h : s₀.Entitled mvs (.opened l) m) (hl : l.SamePlayer l') :
    s₀.Entitled mvs (.opened l') m := by
  cases h with
  | hint => exact .hint
  | told told personal => exact .told (hl.socket ▸ told) (hl.name ▸ personal)

theorem duty_of_deed (h : s.deed? mv = some (.tell k m)) :
    ∃ d ∈ s.duties, d.message = m ∧ ∀ k' m', d = .tell k' m' → k' = k := by
  cases mv with
  | act a =>
    cases a with
    | duty =>
      simp only [deed?] at h
      split at h
      · rename_i hds
        obtain ⟨rfl, rfl⟩ := Deed.tell.inj (Option.some.inj h)
        exact ⟨_, hds ▸ List.mem_cons_self, rfl, fun _ _ he => (Duty.tell.inj he).1.symm⟩
      · rename_i hds
        split at h
        · obtain ⟨rfl, rfl⟩ := Deed.tell.inj (Option.some.inj h)
          exact ⟨_, hds ▸ List.mem_cons_self, rfl, fun _ _ he => by cases he⟩
        · cases h
      · cases h
    | hear =>
      simp only [deed?] at h
      split at h <;> cases h
    | route n =>
      obtain ⟨_, -, h⟩ := Option.map_eq_some_iff.1 h
      cases h
    | _ => cases h
  | _ => cases h

theorem Guards.tells (hs : s₀.Guards mvs s) (h : s.deed? mv = some (.tell k m)) :
    m.Discreet ∨ ∃ name, s.lobby.nameOf k = some name ∧ s₀.Personal mvs name m := by
  obtain ⟨d, hd, rfl, hk⟩ := duty_of_deed h
  obtain hdiscreet | ⟨k', m, name, rfl, hname, hpersonal⟩ := hs.duties hd
  · exact .inl hdiscreet
  · exact .inr ⟨name, hk k' m rfl ▸ hname, hpersonal⟩

theorem mem_turnAway {c : Client} {fs : List Frame} (hfs : fs = [.closed] ∨ ∃ e, fs = dismissal e)
    (h : m ∈ (turnAway c fs).frames.filterMap Frame.message?) :
    m ∈ c.frames.filterMap Frame.message? ∨ m.Discreet := by
  rw [Client.mem_filterMap_message?] at h ⊢
  refine (Client.mem_frames_receives h).imp_right fun h => ?_
  obtain rfl | ⟨e, rfl⟩ := hfs
  · simp at h
  · obtain rfl : m = Message.error e.message := by simpa [dismissal] using h
    exact ⟨rfl, rfl, rfl⟩

theorem Guards.lines_move (hs : s₀.Guards mvs s) (hlisted : s.Listed)
    (hrun : s₀.run mvs = some s) (h : s.move mv = some s') (hx : s'.lines[i]? = some x)
    (hm : m ∈ x.outgoing) : s₀.Entitled (mvs ++ [mv]) x m := by
  have hatt := attends_move h i
  have hold {y : Line} {o : Message} (hy : s.lines[i]? = some y) (ho : o ∈ y.outgoing) :
      s₀.Entitled (mvs ++ [mv]) y o := (hs.lines hy ho).append hrun h
  have hlink {l : Link} : s.lines[i]? = some (.opened l) → s.link? i = some l := link?_eq_some.2
  generalize s.lines[i]? = y, s'.lines[i]? = y' at hatt hx hold hlink
  cases hatt with
  | kept => exact hold hx hm
  | linked nothing =>
    cases hx
    obtain hm | rfl := nothing.outgoing m hm
    · exact (hold rfl hm).samePlayer nothing.samePlayer
    · exact .hint
  | @queued l o sent =>
    cases hx
    have hmem : m ∈ l.outgoing ∨ m = o := by
      simp only [Line.outgoing, Link.mem_outgoing, List.mem_append, List.mem_singleton] at hm ⊢
      tauto
    obtain hm | rfl := hmem
    · exact (hold rfl hm).samePlayer ⟨rfl, rfl, id⟩
    · refine .told ?_ ?_
      · rw [deeds_concat hrun h, sent]
        exact List.mem_append_right _ List.mem_cons_self
      · refine (hs.tells sent).imp_right fun ⟨name, hname, hpersonal⟩ => ?_
        exact hlisted.named (hlink rfl) hname ▸ hpersonal.append mv
  | @looked y =>
    cases hx
    cases y with
    | opened l =>
      refine Entitled.samePlayer (l := l) ?_ l.nothingQueued_look.samePlayer
      obtain hm | rfl := l.nothingQueued_look.outgoing m hm
      · exact hold rfl hm
      · exact .hint
    | waiting name c => cases hold rfl (List.filterMap_subset _ c.frames_look hm)
    | refused e c =>
      cases hold rfl (List.filterMap_subset _ c.frames_look hm) with
      | refused discreet => exact .refused discreet
  | absent => cases hx
  | asked =>
    cases hx
    cases hm
  | turned =>
    cases hx
    exact .refused ((mem_turnAway (.inl rfl) hm).resolve_left (by simp [Client.frames]))
  | @admitted _ client =>
    cases hx
    obtain hm | hm := Link.mem_outgoing.1 hm
    · cases hm
    · have hc : .message m ∈ client.frames ++ [] := hm
      rw [List.append_nil] at hc
      cases hold rfl (Client.mem_filterMap_message?.2 hc)
  | refused =>
    cases hx
    refine .refused ((mem_turnAway (.inr ⟨_, rfl⟩) hm).resolve_left fun hm => ?_)
    cases hold rfl hm
  | stopped =>
    cases hx
    refine .refused ((mem_turnAway (.inl rfl) hm).resolve_left fun hm => ?_)
    cases hold rfl hm

theorem Guards.duties_move (hs : s₀.Guards mvs s) (h : s.move mv = some s')
    (hd : d ∈ s'.duties) : d.message.Discreet ∨
      ∃ k m name, d = .tell k m ∧ s'.lobby.nameOf k = some name ∧
        s₀.Personal (mvs ++ [mv]) name m := by
  cases (move_step h).owes hd with
  | own discreet => exact .inl discreet
  | kept mem register =>
    refine (hs.duties mem).imp_right fun ⟨k, m, name, hd, hname, hpersonal⟩ => ?_
    refine ⟨k, m, name, hd, ?_, hpersonal.append mv⟩
    rwa [Lobby.nameOf_eq, register, ← Lobby.nameOf_eq]
  | @routed n k m name reported duty player named =>
    obtain hdiscreet | ⟨g, g', hmade⟩ := (hs.reports reported).1
    · exact .inl (duty ▸ hdiscreet)
    · exact .inr ⟨k, m, name, duty, named, player, g, g', hmade.append mv⟩

theorem Guards.move (hs : s₀.Guards mvs s) (h₀ : s₀.Fresh) (hrun : s₀.run mvs = some s)
    (h : s.move mv = some s') : s₀.Guards (mvs ++ [mv]) s' where
  reports hm := by
    obtain hm | ⟨hmade, hkind⟩ := (move_step h).underway (tidy_run h₀ hrun) hm
    · obtain ⟨hmade, hkind⟩ := hs.reports hm
      refine ⟨hmade.imp_right fun ⟨g, g', hmade⟩ => ?_, hkind⟩
      exact ⟨g, g', hmade.append mv⟩
    · refine ⟨hmade.imp_right fun ⟨g, g', hmakes⟩ => ?_, hkind⟩
      exact ⟨g, g', made_concat hrun h hmakes⟩
  duties := hs.duties_move h
  lines := hs.lines_move (listed_run h₀ hrun).2 hrun h

theorem Fresh.guards (h : s.Fresh) : s.Guards [] s where
  reports hm := by simp [Registry.underway, h.reports] at hm
  duties hd := by simp [h.duties] at hd
  lines hx := by simp [h.lines] at hx

theorem guards_run (h₀ : s₀.Fresh) (hrun : s₀.run mvs = some s) : s₀.Guards mvs s := by
  induction mvs using List.reverseRecOn generalizing s with
  | nil =>
    obtain rfl := Option.some.inj hrun
    exact h₀.guards
  | append_singleton mvs mv ih =>
    rw [run_append] at hrun
    obtain ⟨t, ht, hlast⟩ := Option.bind_eq_some_iff.1 hrun
    obtain ⟨t', hmv, hend⟩ := run_cons.1 hlast
    obtain rfl := Option.some.inj hend
    exact (ih ht).move h₀ ht hmv

theorem Guards.sends (hs : s₀.Guards mvs s) (hlisted : s.Listed) (h : s.Sends mv k m) :
    m.Discreet ∨ ∃ name, s.lobby.nameOf k = some name ∧ s₀.Personal mvs name m := by
  cases h with
  | told deed => exact hs.tells deed
  | hinted => exact .inl ⟨rfl, rfl, rfl⟩
  | @written i l m rest link ready queue =>
    have hm : m ∈ l.outgoing := Link.mem_outgoing.2 (.inl (queue ▸ List.mem_cons_self))
    cases hs.lines (link?_eq_some.1 link) hm with
    | hint => exact .inl ⟨rfl, rfl, rfl⟩
    | told told personal =>
      exact personal.imp_right fun hpersonal =>
        ⟨l.name, hlisted.listed link (by simp [ready]), hpersonal⟩

theorem Guards.passed (hs : s₀.Guards mvs s) (hl : s.link? i = some l) (hm : m ∈ l.outgoing) :
    m = .ofKind .socketHttpPing ∨ .tell l.socket m ∈ s₀.deeds mvs := by
  cases hs.lines (link?_eq_some.1 hl) hm with
  | hint => exact .inl rfl
  | told told personal => exact .inr told

theorem Guards.seen (hs : s₀.Guards mvs s) (h : .message m ∈ s.unread i) :
    m.Discreet ∨ ∃ l, s.link? i = some l ∧ m ∈ l.outgoing := by
  cases hx : s.lines[i]? with
  | none =>
    rw [unread_of_none hx] at h
    cases h
  | some x =>
    rw [unread_of_line hx] at h
    have hmem (c : Client) (hc : .message m ∈ c.unread) : m ∈ c.frames.filterMap Frame.message? :=
      Client.mem_filterMap_message?.2 (List.mem_append_left _ hc)
    cases x with
    | waiting name c => cases hs.lines hx (hmem c h)
    | refused e c =>
      cases hs.lines hx (hmem c h) with
      | refused discreet => exact .inl discreet
    | opened l =>
      refine .inr ⟨l, link?_eq_some.2 hx, Link.mem_outgoing.2 (.inr ?_)⟩
      exact List.mem_append_left _ (List.mem_append_left _ h)

theorem Guards.routed (hs : s₀.Guards mvs s)
    (hdeed : s.deed? (.act (.route n)) = some (.route n m)) (hname : m.player = some name)
    (h : s.move (.act (.route n)) = some s') :
    s'.duties = (s.lobby.targets name m).map (.tell · m) := by
  obtain ⟨-, h⟩ := Option.ite_none_right_eq_some.1 (act_of_move h)
  obtain ⟨⟨o, games⟩, hm, rfl⟩ := Option.map_eq_some_iff.1 h
  obtain rfl : o = m := by
    obtain ⟨o', ho', he⟩ := Option.map_eq_some_iff.1 hm
    obtain ⟨m', hm', hd⟩ := Option.map_eq_some_iff.1 hdeed
    rw [← (Prod.mk.inj he).1, ← (Deed.route.inj hd).2, Option.some.inj (ho'.symm.trans hm')]
  have hmem : o ∈ s.lobby.games.underway n :=
    (Registry.takeReport_eq_some hm).head ▸ List.mem_cons_self
  obtain ⟨hinfo, hdel⟩ := (hs.reports hmem).2 (by rw [hname]; rfl)
  exact Lobby.report_eq_route hinfo hdel hname

/-- Hands are private, from the game that deals the tiles to the client that is shown them. -/
theorem hands_private (h₀ : s₀.Fresh) (hrun : s₀.run mvs = some s) : s₀.Confides mvs s where
  made mv k m hsends hshows := by
    obtain hdiscreet | ⟨name, -, hpersonal⟩ :=
      (guards_run h₀ hrun).sends (listed_run h₀ hrun).2 hsends
    · obtain (h | h) | h := hshows
      · simp [hdiscreet.tiles] at h
      · simp [hdiscreet.placements] at h
      · simp [hdiscreet.finalBoards] at h
    · exact hpersonal.made
  hands mv k m g g' hsends hshows hmade := by
    obtain ⟨hdiscloses, hid⟩ := hmade.discloses h₀
    obtain ⟨name, hname, hboard, howns⟩ := hdiscloses.own hshows
    refine ⟨hid, name, ?_, hboard, howns⟩
    obtain hdiscreet | ⟨name', hk, hpersonal⟩ :=
      (guards_run h₀ hrun).sends (listed_run h₀ hrun).2 hsends
    · simp [Message.ShowsTiles, hdiscreet.tiles, hdiscreet.placements] at hshows
    · rw [hk, ← hpersonal.player, hname]
  boards m g g' hmade hfinal := by
    obtain ⟨hdiscloses, hid⟩ := hmade.discloses h₀
    exact ⟨hid, hdiscloses.final hfinal⟩
  passed i l m hl hm := (guards_run h₀ hrun).passed hl hm
  seen i m hm := (guards_run h₀ hrun).seen hm
  routed n m name s' hdeed hname h := by
    have hduties := (guards_run h₀ hrun).routed hdeed hname h
    refine ⟨_, s.lobby.addresses_targets name m, hduties, fun mvs' t ht => tellings_run ?_ ht⟩
    rw [hduties, List.map_map]
    rfl

def joining : List Move := arrival ++ [.act .duty, .act (.game 0 .handle), .act (.route 0)]

theorem hands_private_joining : ∃ s m g g', vacant.Fresh ∧ vacant.run joining = some s ∧
    s.Sends (.act .duty) 1 m ∧ m.tiles = some [⟨1, 'C'⟩, ⟨2, 'A'⟩] ∧ vacant.Made joining m g g' ∧
    ∃ name, s.lobby.nameOf 1 = some name ∧ ∀ tile ∈ m.shown, g'.Owns name tile := by
  have hrun : vacant.run joining = some _ := rfl
  have hconfides := hands_private fresh_vacant hrun
  obtain ⟨g, g', hmade⟩ := hconfides.made (.act .duty) 1 _ (.told rfl) (.inl (.inl rfl))
  obtain ⟨-, name, hname, -, howns⟩ :=
    hconfides.hands (.act .duty) 1 _ g g' (.told rfl) (.inl rfl) hmade
  exact ⟨_, _, g, g', fresh_vacant, hrun, .told rfl, rfl, hmade, name, hname, howns⟩

end Server

end TileRace
