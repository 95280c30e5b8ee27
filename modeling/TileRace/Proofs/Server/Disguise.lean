import TileRace.Proofs.Connection.Disguise
import TileRace.Proofs.Server.Origin

namespace TileRace

inductive Line.Alike : Line → Line → Prop where
  | waiting (name client) : Alike (.waiting name client) (.waiting name client)
  | refused (reason client) : Alike (.refused reason client) (.refused reason client)
  | opened {l k} (links : l.Alike k) : Alike (.opened l) (.opened k)

theorem Line.Alike.refl (x : Line) : x.Alike x := by
  cases x with
  | waiting => exact .waiting _ _
  | refused => exact .refused _ _
  | opened l => exact .opened (.refl l)

section Lists

variable {α β : Type} {R : α → β → Prop} {xs : List α} {ys : List β}

theorem getElem?_rel (h : List.Forall₂ R xs ys) (i : Nat) : Option.Rel R xs[i]? ys[i]? := by
  induction h generalizing i with
  | nil => exact .none
  | cons hx _ ih =>
    cases i with
    | zero => exact .some hx
    | succ i => exact ih i

theorem set_rel {x : α} {y : β} (h : List.Forall₂ R xs ys) (hxy : R x y) (i : Nat) :
    List.Forall₂ R (xs.set i x) (ys.set i y) := by
  induction h generalizing i with
  | nil => exact .nil
  | cons hx hxs ih =>
    cases i with
    | zero => exact .cons hxy hxs
    | succ i => exact .cons hx (ih i)

theorem findIdx?_rel {p : α → Bool} {q : β → Bool} (h : List.Forall₂ R xs ys)
    (hpq : ∀ x y, R x y → q y = p x) : ys.findIdx? q = xs.findIdx? p := by
  induction h with
  | nil => rfl
  | cons hx _ ih => rw [List.findIdx?_cons, List.findIdx?_cons, hpq _ _ hx, ih]

theorem map_rel {γ : Type} {f : α → γ} {g : β → γ} (h : List.Forall₂ R xs ys)
    (hfg : ∀ x y, R x y → g y = f x) : ys.map g = xs.map f := by
  induction h with
  | nil => rfl
  | cons hx _ ih => rw [List.map_cons, List.map_cons, hfg _ _ hx, ih]

end Lists

namespace Server

/-- Two servers that differ only in what is about to be read. -/
inductive Alike (s : Server) : Server → Prop where
  | mk {ls} (lines : List.Forall₂ Line.Alike s.lines ls) : Alike s { s with lines := ls }

/-- Two moves that differ only in how a client says something. -/
inductive Move.Alike : Move → Move → Prop where
  | same (mv) : Alike mv mv
  | send (i) {f f'} (frames : f.Alike f') : Alike (.send i f) (.send i f')

variable {s t s' t' : Server} {mv mv' : Move} {mvs mvs' : List Move} {ls : List Line} {i : Nat}

theorem Alike.refl (s : Server) : s.Alike s := .mk (List.forall₂_same.2 fun x _ => .refl x)

theorem alike_set {x y : Line} (h : s.Alike t) (hxy : x.Alike y) :
    (s.setLine i x).Alike (t.setLine i y) := by
  cases h with
  | mk lines => exact .mk (set_rel lines hxy i)

theorem alike_map {f g : Line → Line} (lines : List.Forall₂ Line.Alike s.lines ls)
    (hfg : ∀ x y, x.Alike y → (f x).Alike (g y)) :
    List.Forall₂ Line.Alike (s.lines.map f) (ls.map g) :=
  List.rel_map (fun x y => hfg x y) lines

theorem alike_tell {socket : SocketId} {m : Message} (h : s.Alike t) :
    Option.Rel Alike (s.tell socket m) (t.tell socket m) := by
  cases h with
  | @mk ls lines =>
    have hfor : ∀ x y, Line.Alike x y → isFor socket y = isFor socket x := by
      intro x y h
      cases h with
      | waiting | refused => rfl
      | opened links =>
        cases links
        rfl
    simp only [tell, findIdx?_rel lines hfor]
    split
    · exact .some (.mk lines)
    · rename_i i _
      have hline := getElem?_rel lines i
      generalize s.lines[i]? = o, ls[i]? = o' at hline
      cases hline with
      | none => exact .some (.mk lines)
      | some hx =>
        cases hx with
        | waiting | refused => exact .some (.mk lines)
        | opened links =>
          cases links with
          | mk frames =>
            dsimp only
            split
            · exact .some (.mk lines)
            · split
              · refine .some (alike_set (.mk lines) (.opened ?_))
                exact .mk frames
              · exact .none

theorem alike_perform (h : s.Alike t) (d : Duty) :
    Option.Rel Alike (s.perform d) (t.perform d) := by
  cases d with
  | tell => exact alike_tell h
  | pass n m socket answer =>
    cases h with
    | mk lines =>
      simp only [perform]
      split
      · exact .some (.mk lines)
      · exact .none
      · exact alike_tell (.mk lines)

theorem alike_enrollNext (h : s.Alike t) (i : Nat) : (s.enrollNext i).Alike (t.enrollNext i) := by
  cases h with
  | @mk ls lines =>
    have hline := getElem?_rel lines i
    simp only [enrollNext]
    generalize s.lines[i]? = o, ls[i]? = o' at hline
    cases hline with
    | none => exact .mk lines
    | some hx =>
      cases hx with
      | refused | opened => exact .mk lines
      | waiting name client =>
        dsimp only
        split
        · refine alike_set ?_ (.opened (.refl _))
          exact .mk lines
        · exact alike_set (.mk lines) (.refused _ _)

theorem alike_line (h : s.Alike t) (i : Nat) (a : Link.Act) :
    Option.Rel Alike (s.act (.line i a)) (t.act (.line i a)) := by
  cases h with
  | @mk ls lines =>
    have hline := getElem?_rel lines i
    simp only [act]
    generalize s.lines[i]? = o, ls[i]? = o' at hline
    cases hline with
    | none => exact .none
    | some hx =>
      cases hx with
      | waiting | refused => exact .none
      | opened links =>
        refine option_map_rel (Link.alike_act links s.now s.intake a) fun p q hpq => ?_
        obtain ⟨hlink, he⟩ := hpq
        rw [he]
        exact .mk (set_rel lines (.opened hlink) i)

theorem alike_act (h : s.Alike t) (a : Act) : Option.Rel Alike (s.act a) (t.act a) := by
  have hperform := alike_perform h
  have hline := alike_line h
  cases h with
  | @mk ls lines =>
    cases a with
    | line i a => exact hline i a
    | stop =>
      refine option_ite_rel Iff.rfl (.some (.mk (alike_map lines fun x y h => ?_)))
      cases h with
      | waiting | refused => exact .refl _
      | opened links => exact .opened links
    | enroll =>
      simp only [act]
      split
      · refine option_ite_rel Iff.rfl (.some (alike_enrollNext ?_ _))
        exact .mk lines
      · exact .none
    | hear =>
      simp only [act]
      split
      · rename_i e rest _
        cases e <;> exact option_ite_rel Iff.rfl (.some (.mk lines))
      · exact .none
    | route n =>
      refine option_ite_rel Iff.rfl ?_
      dsimp only
      cases s.lobby.games.takeReport n with
      | none => exact .none
      | some => exact .some (.mk lines)
    | duty =>
      simp only [act]
      split
      · refine option_map_rel (hperform _) fun r r' h => ?_
        cases h with
        | mk lines => exact .mk lines
      · exact .none
    | game n a =>
      simp only [act]
      cases s.lobby.games.act s.now n a with
      | none => exact .none
      | some => exact .some (.mk lines)

theorem alike_change {f g : Link → Link} (h : s.Alike t) (i : Nat)
    (hfg : ∀ l k, Link.Alike l k → (f l).Alike (g k)) : (s.change i f).Alike (t.change i g) := by
  cases h with
  | @mk ls lines =>
    have hline := getElem?_rel lines i
    simp only [change]
    generalize s.lines[i]? = o, ls[i]? = o' at hline
    cases hline with
    | none => exact .mk lines
    | some hx =>
      cases hx with
      | waiting | refused => exact .mk lines
      | opened links => exact alike_set (.mk lines) (.opened (hfg _ _ links))

theorem gone_eq {f f' : Inbound} (h : s.Alike t) (hf : f.Alike f') (i : Nat) :
    t.gone i f' = s.gone i f := by
  cases h with
  | @mk ls lines =>
    have hline := getElem?_rel lines i
    simp only [gone]
    generalize s.lines[i]? = o, ls[i]? = o' at hline
    cases hline with
    | none => rfl
    | some hx =>
      cases hx with
      | waiting | refused => rfl
      | opened links => exact Link.gone_eq links hf

theorem alike_connect (h : s.Alike t) (name : String) :
    (s.connect name).Alike (t.connect name) := by
  cases h with
  | @mk ls lines =>
    have hconcat (x : Line) : List.Forall₂ Line.Alike (s.lines ++ [x]) (ls ++ [x]) :=
      List.rel_append lines (.cons (.refl x) .nil)
    simp only [connect, lines.length_eq]
    split
    · exact .mk (hconcat _)
    · split
      · exact .mk (hconcat _)
      · have hnew := hconcat (.waiting name { room := s.room })
        rw [← lines.length_eq]
        exact .mk hnew

theorem alike_cancel (h : s.Alike t) : s.cancel.Alike t.cancel := by
  cases h with
  | mk lines =>
    refine .mk (alike_map lines fun x y h => ?_)
    cases h with
    | waiting | refused => exact .refl _
    | opened links =>
      cases links with
      | mk frames => exact .opened (.mk frames)

theorem look_eq (h : s.Alike t) : t.look.1 = s.look.1 ∧ s.look.2.Alike t.look.2 := by
  cases h with
  | @mk ls lines =>
    refine ⟨?_, .mk (alike_map lines fun x y h => ?_)⟩
    · refine map_rel lines fun x y h => ?_
      cases h with
      | waiting | refused => rfl
      | opened links =>
        cases links
        rfl
    · cases h with
      | waiting | refused => exact .refl _
      | opened links =>
        cases links with
        | mk frames => exact .opened (.mk frames)

theorem alike_move (h : s.Alike t) (hmv : mv.Alike mv') :
    Option.Rel Alike (s.move mv) (t.move mv') := by
  have hsend (i : Nat) {f f' : Inbound} (hf : f.Alike f') :
      Option.Rel Alike (s.move (.send i f)) (t.move (.send i f')) := by
    rw [move, move, gone_eq h hf]
    split
    · exact .none
    · exact .some (alike_change h i fun l k hlk => Link.alike_send hlk hf)
  cases hmv with
  | send i frames => exact hsend i frames
  | same =>
    cases mv with
    | act a =>
      have hsearches : t.searches a = s.searches a := by
        cases h
        rfl
      rw [move, move, hsearches]
      split
      · exact .none
      · exact alike_act h a
    | connect name => exact .some (alike_connect h name)
    | send i f => exact hsend i (.same f)
    | drop i | mute i =>
      refine .some (alike_change h i fun l k hlk => ?_)
      cases hlk with
      | mk frames => exact .mk frames
    | sip i n => exact .some (alike_change h i fun l k hlk => Link.alike_sip hlk n)
    | unmute i => exact .some (alike_change h i fun l k hlk => Link.alike_unmute hlk)
    | look => exact .some (look_eq h).2
    | cancel => exact .some (alike_cancel h)
    | wait time =>
      cases h with
      | mk lines => exact .some (.mk lines)

/-- What others notice of connections and games: a connection passes an event on, a session
handles a request, or the clients read what they were sent. -/
inductive Sight where
  | passed (line : Nat) (e : Event)
  | handled (session : Nat) (m : Message)
  | shown (frames : List (List Frame))

def sight? (s : Server) : Move → Option Sight
  | .act (.line i a) =>
    ((s.link? i).bind fun l => (l.act s.now s.intake a).bind (·.2)).map (.passed i)
  | .act (.game n .handle) => (s.lobby.games.inbox n).head?.map (.handled n)
  | .look => some (.shown s.look.1)
  | _ => none

def sights (s : Server) : List Move → List Sight
  | [] => []
  | mv :: mvs => match s.move mv with
    | some s' => (s.sight? mv).toList ++ s'.sights mvs
    | none => []

theorem sight_line (h : s.Alike t) (i : Nat) (a : Link.Act) :
    t.sight? (.act (.line i a)) = s.sight? (.act (.line i a)) := by
  cases h with
  | @mk ls lines =>
    have hline := getElem?_rel lines i
    simp only [sight?, link?]
    generalize s.lines[i]? = o, ls[i]? = o' at hline
    cases hline with
    | none => rfl
    | some hx =>
      cases hx with
      | waiting | refused => rfl
      | @opened l k links =>
        have hact := Link.alike_act links s.now s.intake a
        change ((k.act s.now s.intake a).bind (·.2)).map _ = ((l.act s.now s.intake a).bind _).map _
        generalize l.act s.now s.intake a = r, k.act s.now s.intake a = r' at hact
        cases hact with
        | none => rfl
        | some hpq => rw [Option.bind_some, Option.bind_some, hpq.2]

theorem sight_eq (h : s.Alike t) (hmv : mv.Alike mv') : t.sight? mv' = s.sight? mv := by
  cases hmv with
  | send => rfl
  | same =>
    cases mv with
    | act a =>
      cases a with
      | line i a => exact sight_line h i a
      | game n a =>
        cases h
        cases a <;> rfl
      | stop | enroll | hear | route | duty => rfl
    | look => rw [sight?, sight?, (look_eq h).1]
    | connect | send | drop | mute | sip | unmute | cancel | wait => rfl

theorem alike_run (h : s.Alike t) (hmvs : List.Forall₂ Move.Alike mvs mvs') :
    Option.Rel Alike (s.run mvs) (t.run mvs') ∧ t.sights mvs' = s.sights mvs := by
  induction hmvs generalizing s t with
  | nil => exact ⟨.some h, rfl⟩
  | @cons mv mv' mvs mvs' hmv _ ih =>
    have hmove := alike_move h hmv
    rw [run, run, sights, sights, sight_eq h hmv]
    generalize s.move mv = o, t.move mv' = o' at hmove
    cases hmove with
    | none => exact ⟨.none, rfl⟩
    | some h =>
      obtain ⟨hrun, hsights⟩ := ih h
      exact ⟨hrun, congrArg _ hsights⟩

theorem mem_sights {x : Sight} (h : x ∈ s.sights mvs) : ∃ before mv after t,
    mvs = before ++ mv :: after ∧ s.run before = some t ∧ t.sight? mv = some x := by
  induction mvs generalizing s with
  | nil => cases h
  | cons mv mvs ih =>
    rw [sights] at h
    split at h
    · rename_i t ht
      obtain h | h := List.mem_append.1 h
      · exact ⟨[], mv, mvs, s, rfl, rfl, Option.mem_toList.1 h⟩
      · obtain ⟨before, mv', after, r, rfl, hr, hx⟩ := ih h
        refine ⟨mv :: before, mv', after, r, rfl, ?_, hx⟩
        rw [run, ht]
        exact hr
    · cases h

theorem at?_of_handled {n : Nat} {m : Message} (h : s.sight? mv = some (.handled n m)) :
    mv = .act (.game n .handle) ∧ s.at? (.inbox n 0) = some m := by
  unfold sight? at h
  split at h
  · obtain ⟨_, -, he⟩ := Option.map_eq_some_iff.1 h
    cases he
  · obtain ⟨o, ho, he⟩ := Option.map_eq_some_iff.1 h
    obtain ⟨rfl, rfl⟩ := Sight.handled.inj he
    refine ⟨rfl, ?_⟩
    rw [at?, ← List.head?_eq_getElem?]
    exact ho
  · cases h
  · cases h

theorem marks_of_becomes {l : Link} {o m : Message} (h : (l.stamp o).Becomes m) :
    m.player = some l.name ∧ m.socket = some l.socket ∧
      (o.kind ≠ .createGame → ¬(o.kind = .joinGame ∧ o.gameId.isSome) →
        m.gameId = l.tracked) := by
  obtain rfl | ⟨hk, id, rfl⟩ := h
  · exact ⟨rfl, rfl, fun _ hn => if_neg hn⟩
  · exact ⟨rfl, rfl, fun hc => (hc hk).elim⟩

/-- Whatever the clients say of who they are and which game they are in, everybody notices the same.
What a session handles is marked as the connection was that it was read from. -/
theorem no_disguise {s₀ : Server} (h₀ : s₀.Fresh) (hrun : s₀.run mvs = some s) :
    (∀ mvs', List.Forall₂ Move.Alike mvs mvs' → s₀.sights mvs' = s₀.sights mvs ∧
      ∃ s', s₀.run mvs' = some s' ∧ s'.look.1 = s.look.1) ∧
    ∀ n m, .handled n m ∈ s₀.sights mvs → ∃ before passed after i t t' l o,
      mvs = before ++ .act (.line i .readFrame) :: passed ++ .act (.game n .handle) :: after ∧
      s₀.run before = some t ∧ t.link? i = some l ∧ l.reading? = some o ∧
      t.move (.act (.line i .readFrame)) = some t' ∧
      t'.journey (.offered i) passed = .inbox n 0 ∧
      m.player = some l.name ∧ m.socket = some l.socket ∧
      (o.kind ≠ .createGame → ¬(o.kind = .joinGame ∧ o.gameId.isSome) →
        m.gameId = l.tracked) := by
  refine ⟨fun mvs' hmvs => ?_, fun n m hm => ?_⟩
  · obtain ⟨hrun', hsights⟩ := alike_run (.refl s₀) hmvs
    refine ⟨hsights, ?_⟩
    rw [hrun] at hrun'
    generalize s₀.run mvs' = o at hrun' ⊢
    cases hrun' with
    | some h => exact ⟨_, rfl, (look_eq h).1⟩
  · obtain ⟨mvs₁, mv, after, r, rfl, hr, hsight⟩ := mem_sights hm
    obtain ⟨rfl, hat⟩ := at?_of_handled hsight
    obtain ⟨before, i, passed, t, t', l, o, rfl, ht, hl, ho, hmv, hjourney, hbecomes⟩ :=
      read_of_at? h₀ hr hat
    exact ⟨before, passed, after, i, t, t', l, o, rfl, ht, hl, ho, hmv, hjourney,
      marks_of_becomes hbecomes⟩

def speaking (text : String) : List Move :=
  arrival ++ seating ++ (say 0 text ++ [.act .duty, .act (.game 0 .handle)])

theorem alike_speaking : List.Forall₂ Move.Alike (speaking "[9,\"hello\"]")
    (speaking "[9,\"hello\",null,null,null,null,null,7,\"bob\"]") := by
  refine List.rel_append (List.forall₂_same.2 fun mv _ => .same mv) ?_
  exact .cons (.send 0 (.data rfl)) (List.forall₂_same.2 fun mv _ => .same mv)

theorem no_disguise_speaking : ∃ s s' m, vacant.Fresh ∧
    vacant.run (speaking "[9,\"hello\"]") = some s ∧
    vacant.run (speaking "[9,\"hello\",null,null,null,null,null,7,\"bob\"]") = some s' ∧
    s'.look.1 = s.look.1 ∧ .handled 0 m ∈ vacant.sights (speaking "[9,\"hello\"]") ∧
    m.info = some "hello" ∧ m.player = some "ann" ∧ m.gameId = some 1 ∧
    ∃ l : Link, m.player = some l.name ∧ m.socket = some l.socket := by
  have hrun : vacant.run (speaking "[9,\"hello\"]") = some _ := rfl
  obtain ⟨hsame, hmarks⟩ := no_disguise fresh_vacant hrun
  obtain ⟨-, s', hrun', hlook⟩ := hsame _ alike_speaking
  let m : Message := { kind := .gameChat, info := some "hello", gameId := some 1,
                       player := some "ann", socket := some 1 }
  have hm : .handled 0 m ∈ vacant.sights (speaking "[9,\"hello\"]") :=
    List.mem_of_getElem? (i := 3) rfl
  obtain ⟨-, -, -, -, -, -, l, -, -, -, -, -, -, -, hname, hsocket, -⟩ := hmarks 0 m hm
  exact ⟨_, s', m, fresh_vacant, hrun, hrun', hlook, hm, rfl, rfl, rfl, l, hname, hsocket⟩

end Server

end TileRace
