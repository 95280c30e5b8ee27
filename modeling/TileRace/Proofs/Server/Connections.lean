import Mathlib.Data.Option.Basic
import TileRace.Proofs.Connection.Link
import TileRace.Proofs.Server.Run

namespace TileRace

def Line.link? : Line → Option Link
  | .opened l => some l
  | _ => none

namespace Server

def link? (s : Server) (i : Nat) : Option Link := s.lines[i]?.bind Line.link?

/-- All that others do to a connection. -/
inductive Outside (s : Server) (mv : Move) (i : Nat) (l : Link) : Link → Prop where
  | kept : Outside s mv i l l
  | sent (f) (move : mv = .send i f) : Outside s mv i l (l.send f)
  | dropped : Outside s mv i l l.drop
  | muted : Outside s mv i l l.mute
  | sipped (n) : Outside s mv i l (l.sip n)
  | unmuted : Outside s mv i l l.unmute
  | looked : Outside s mv i l l.look.2
  | cancelled : Outside s mv i l { l with cancelled := true }
  | queued {d ds} (move : mv = .act .duty) (due : s.duties = d :: ds)
    (socket : d.socket = l.socket) (accepting : l.accepting) :
    Outside s mv i l { l with queue := l.queue ++ [d.message] }

inductive Befalls (s : Server) (mv : Move) (i : Nat) : Option Link → Option Link → Prop where
  | none (idle : ∀ a, mv ≠ .act (.line i a)) : Befalls s mv i none none
  | outside {l l'} (h : s.Outside mv i l l') (idle : ∀ a, mv ≠ .act (.line i a)) :
    Befalls s mv i (some l) (some l')
  | acts {a e} {l l' : Link} (move : mv = .act (.line i a))
    (h : l.act s.now s.intake a = some (l', e)) :
    Befalls s mv i (some l) (some l')
  | opened {id name client} (move : mv = .act .enroll) :
    Befalls s mv i none (some { Link.start id name s.timing s.room s.now with client })

variable {s s' : Server} {mv : Move} {i j : Nat} {l l' : Link} {x : Line} {f : Link → Link}

theorem link?_eq_some : s.link? i = some l ↔ s.lines[i]? = some (.opened l) := by
  rw [link?, Option.bind_eq_some_iff]
  refine ⟨fun ⟨x, hx, hl⟩ => ?_, fun h => ⟨_, h, rfl⟩⟩
  cases x with
  | opened l' => rw [hx, Option.some.inj hl]
  | waiting | refused => cases hl

theorem Fresh.link? (h : s.Fresh) (i : Nat) : s.link? i = none := by
  rw [Server.link?, h.lines]
  rfl

theorem lt_of_link? (h : s.link? i = some l) : i < s.lines.length :=
  (List.getElem?_eq_some_iff.1 (link?_eq_some.1 h)).1

theorem link?_set {y : Line} (h : s.lines[j]? = some y) :
    (s.lines.set j x)[i]?.bind Line.link? = if j = i then x.link? else s.link? i := by
  rw [List.getElem?_set, if_pos (List.getElem?_eq_some_iff.1 h).1, link?]
  split <;> rfl

theorem link?_setLine (hlt : j < s.lines.length) :
    (s.setLine j x).link? i = if j = i then x.link? else s.link? i :=
  link?_set (List.getElem?_eq_getElem hlt)

theorem link?_map {f : Line → Line} {g : Link → Link} (hf : ∀ x, (f x).link? = x.link?.map g) :
    (s.lines.map f)[i]?.bind Line.link? = (s.link? i).map g := by
  rw [List.getElem?_map, link?]
  cases s.lines[i]? with
  | none => rfl
  | some x => exact hf x

theorem link?_concat (hx : x.link? = none) :
    (s.lines ++ [x])[i]?.bind Line.link? = s.link? i := by
  rw [link?, List.getElem?_append]
  split
  · rfl
  · rename_i hlt
    rw [List.getElem?_eq_none (Nat.not_lt.1 hlt), List.getElem?_singleton]
    split
    · rw [Option.bind_some, hx, Option.bind_none]
    · rfl

theorem link?_change (s : Server) (j : Nat) (f : Link → Link) (i : Nat) :
    (s.change j f).link? i = if j = i then (s.link? i).map f else s.link? i := by
  rw [change]
  split
  · rename_i l hl
    refine (link?_set hl).trans ?_
    split
    · rename_i hij
      rw [← hij, link?_eq_some.2 hl]
      rfl
    · rfl
  · rename_i hl
    split
    · rename_i hij
      subst hij
      cases hi : s.link? j with
      | none => rfl
      | some l => exact (hl l (link?_eq_some.1 hi)).elim
    · rfl

theorem Outside.of_touch (h : mv.touch? = some (i, f)) (l : Link) : s.Outside mv i l (f l) := by
  cases mv <;> cases h
  case send f => exact .sent f rfl
  case drop => exact .dropped
  case mute => exact .muted
  case sip n => exact .sipped n
  case unmute => exact .unmuted

theorem Outside.same_or_queued (h : s.Outside mv i l l') : l.SameHalves l' ∨
    ∃ d ds, mv = .act .duty ∧ s.duties = d :: ds ∧ d.socket = l.socket ∧ l.accepting ∧
      l' = { l with queue := l.queue ++ [d.message] } := by
  cases h with
  | queued move due socket accepting => exact .inr ⟨_, _, move, due, socket, accepting, rfl⟩
  | sent f => exact .inl (l.sameHalves_send f)
  | _ => exact .inl ⟨rfl, rfl, rfl, rfl, rfl, rfl⟩

theorem Outside.reader (h : s.Outside mv i l l') : l'.reader = l.reader := by
  obtain hsame | ⟨_, _, -, -, -, -, rfl⟩ := h.same_or_queued
  · exact hsame.reader
  · rfl

theorem Outside.socket (h : s.Outside mv i l l') : l'.socket = l.socket := by
  obtain hsame | ⟨_, _, -, -, -, -, rfl⟩ := h.same_or_queued
  · exact hsame.socket
  · rfl

theorem Befalls.same (o : Option Link) (idle : ∀ a, mv ≠ .act (.line i a)) :
    s.Befalls mv i o o := by
  cases o with
  | none => exact .none idle
  | some l => exact .outside .kept idle

theorem Befalls.map (o : Option Link) (hf : ∀ l, s.Outside mv i l (f l))
    (idle : ∀ a, mv ≠ .act (.line i a)) : s.Befalls mv i o (o.map f) := by
  cases o with
  | none => exact .none idle
  | some l => exact .outside (hf l) idle

theorem Does.befalls (h : s.Does mv s') (i : Nat) :
    s.Befalls mv i (s.link? i) (s'.link? i) := by
  have hnone {j : Nat} {x : Line} (hj : s.lines[j]? = some x) (hx : x.link? = none) :
      s.link? j = none := by
    rw [link?, hj]
    exact hx
  have hset {j : Nat} {x y : Line} (hj : s.lines[j]? = some x)
      (h : s.Befalls mv j (s.link? j) y.link?) (idle : j ≠ i → ∀ a, mv ≠ .act (.line i a)) :
      s.Befalls mv i (s.link? i) ((s.lines.set j y)[i]?.bind Line.link?) := by
    rw [link?_set hj]
    split
    · rename_i hij
      exact hij ▸ h
    · exact .same _ (idle ‹_›)
  have hmap {f : Line → Line} {g : Link → Link} (hf : ∀ x, (f x).link? = x.link?.map g)
      (hg : ∀ l, s.Outside mv i l (g l)) (idle : ∀ a, mv ≠ .act (.line i a)) :
      s.Befalls mv i (s.link? i) ((s.lines.map f)[i]?.bind Line.link?) := by
    rw [link?_map hf]
    exact .map _ hg idle
  have hconcat {x : Line} (hx : x.link? = none) (idle : ∀ a, mv ≠ .act (.line i a)) :
      s.Befalls mv i (s.link? i) ((s.lines ++ [x])[i]?.bind Line.link?) := by
    rw [link?_concat hx]
    exact .same _ idle
  cases h with
  | skips | hears | forgets | routes | passes | loses | plays | waits => exact .same _ nofun
  | stops =>
    have hrefuse (x : Line) : (refuseClosed x).link? = x.link?.map id := by cases x <;> rfl
    exact hmap hrefuse (fun _ => .kept) nofun
  | admits free next waits => exact hset waits (hnone waits rfl ▸ .opened rfl) fun _ => nofun
  | refuses free next waits => exact hset waits (hnone waits rfl ▸ .none nofun) fun _ => nofun
  | queues due sent found link accepting =>
    refine hset link ?_ fun _ => nofun
    rw [link?_eq_some.2 link]
    exact .outside (.queued rfl due (socket_of_isFor found link).symm accepting) nofun
  | acts link act =>
    refine hset link ?_ fun hij a he => hij (Act.line.inj (Move.act.inj he)).1
    rw [link?_eq_some.2 link]
    exact .acts rfl act
  | asks | turns => exact hconcat rfl nofun
  | @touches mv j f touch =>
    have idle : ∀ a, mv ≠ .act (.line i a) := by
      rintro a rfl
      cases touch
    rw [link?_change]
    split
    · rename_i hij
      exact .map _ (.of_touch (hij ▸ touch)) idle
    · exact .same _ idle
  | looks =>
    have hlook (x : Line) : (lookLine x).2.link? = x.link?.map (·.look.2) := by cases x <;> rfl
    exact hmap hlook (fun _ => .looked) nofun
  | cancels =>
    have hcancel (x : Line) : (cancelLine x).link? = x.link?.map ({ · with cancelled := true }) := by
      cases x <;> rfl
    exact hmap hcancel (fun _ => .cancelled) nofun

/-- A move changes no setting of the server, and does one thing to each connection, if anything. -/
structure Turns (s : Server) (mv : Move) (s' : Server) : Prop where
  timing : s'.timing = s.timing
  capacity : s'.capacity = s.capacity
  room : s'.room = s.room
  befalls : ∀ i, s.Befalls mv i (s.link? i) (s'.link? i)

theorem turns_move (h : s.move mv = some s') : s.Turns mv s' := by
  have hdoes := does_move h
  refine ⟨?_, ?_, ?_, hdoes.befalls⟩ <;> cases hdoes <;> first | rfl | rw [change_eq]

theorem outside_move (hl : s.link? i = some l) (h : s.move mv = some s')
    (idle : ∀ a, mv ≠ .act (.line i a)) : ∃ l', s'.link? i = some l' ∧ s.Outside mv i l l' := by
  have hbefalls := (turns_move h).befalls i
  rw [hl] at hbefalls
  generalize s'.link? i = o at hbefalls
  cases hbefalls with
  | outside houtside => exact ⟨_, rfl, houtside⟩
  | acts move => exact (idle _ move).elim

end Server

end TileRace
