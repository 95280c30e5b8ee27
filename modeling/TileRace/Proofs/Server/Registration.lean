import TileRace.Proofs.Connection.Writing
import TileRace.Proofs.Server.Moves

namespace TileRace

/-- The part of a lobby that decides on new connections: whose connections it has, the last number
given out, and the limits. -/
structure Register where
  names : Table SocketId String
  last : SocketId
  maxSockets : UInt64
  maxPlayerSockets : UInt64

namespace Lobby

def register (l : Lobby) : Register where
  names := l.guests.map fun _ g => g.name
  last := l.lastSocket
  maxSockets := l.maxSockets
  maxPlayerSockets := l.maxPlayerSockets

variable {l l' : Lobby} {m : Message} {name : String} {socket : SocketId}

theorem get?_names (l : Lobby) (k : SocketId) :
    l.register.names.get? k = (l.guests.get? k).map (·.name) :=
  Table.get?_map _ _ _

theorem size_names (l : Lobby) : l.register.names.size = l.guests.size := List.length_map _

theorem guestsNamed_eq (l : Lobby) (name : String) :
    l.guestsNamed name = (l.register.names.values.filter (· = name)).length := by
  simp only [guestsNamed, register, Table.values, Table.map, List.map_map, List.filter_map,
    List.length_map]
  rfl

theorem register_setGame (l : Lobby) (socket : SocketId) (game : Option GameId) :
    (l.setGame socket game).register = l.register := by
  have hname (k : SocketId) (g : Guest) : ({ g with game := game } : Guest).name = g.name := rfl
  simp only [register, setGame, Table.map_modify hname]

theorem register_follow (l : Lobby) (m : Message) (socket : SocketId) :
    (l.follow m socket).register = l.register := by
  rw [follow]
  split
  · exact register_setGame _ _ _
  · split
    · exact register_setGame _ _ _
    · rfl
  · rfl

theorem register_foldl {f : Lobby → SocketId → Lobby} (hf : ∀ l k, (f l k).register = l.register)
    (sockets : List SocketId) (l : Lobby) : (sockets.foldl f l).register = l.register := by
  induction sockets generalizing l with
  | nil => rfl
  | cons k sockets ih => exact (ih _).trans (hf l k)

theorem register_receive (l : Lobby) (now : Nat) (m : Message) :
    (l.receive now m).1.register = l.register := by
  have hr := l.receives_receive now m
  generalize (l.receive now m).1 = l', (l.receive now m).2 = ds at hr
  cases hr with
  | dropped | created | passed | answered => rfl
  | left => exact register_setGame _ _ _

theorem register_deleted (l : Lobby) (id : GameId) : (l.deleted id).1.register = l.register :=
  register_foldl (fun l k => register_setGame l k none) _ l

theorem register_report (l : Lobby) (m : Message) : (l.report m).1.register = l.register := by
  rw [report]
  split
  · split <;> rfl
  · split
    · rfl
    · exact l.register_deleted _
  · rw [route]
    split
    · rfl
    · exact register_foldl (fun l k => register_follow l m k) _ l

theorem register_enroll {ds : List Duty} (h : l.enroll name = .ok (socket, l', ds)) :
    l'.register = { l.register with
      names := l.register.names.insert (l.register.last + 1) name
      last := l.register.last + 1 } := by
  rw [(enroll_eq_ok h).1]
  simp only [register, Table.map_insert]

theorem register_forget (l : Lobby) (socket : SocketId) : (l.forget socket).register =
    { l.register with names := l.register.names.erase socket } := by
  simp only [register, forget, Table.map_erase]

theorem enroll_error {e : LobbyError} (h : l.enroll name = .error e) :
    l.checkLimits name = .error e := by
  rw [enroll] at h
  split at h
  · rename_i he
    rw [he, Except.error.inj h]
  · cases h

theorem enroll_limits {ds : List Duty} (h : l.enroll name = .ok (socket, l', ds)) :
    l.checkLimits name = .ok () := by
  rw [enroll] at h
  split at h
  · cases h
  · assumption

theorem checkLimits_eq_ok : l.checkLimits name = .ok () ↔
    l.guests.size < l.maxSockets.toNat ∧ l.guestsNamed name < l.maxPlayerSockets.toNat := by
  rw [checkLimits]
  split
  · rename_i h
    exact iff_of_false nofun fun hlt => Nat.not_lt.2 h hlt.1
  · rename_i h
    split
    · rename_i h'
      exact iff_of_false nofun fun hlt => Nat.not_lt.2 h' hlt.2
    · rename_i h'
      exact iff_of_true rfl ⟨Nat.not_le.1 h, Nat.not_le.1 h'⟩

end Lobby

namespace Server

def unread (s : Server) (i : Nat) : List Frame :=
  (s.lines[i]?.map fun x => (lookLine x).1).getD []

/-- What the lobby sends to a client that it turns away: why, and then the end. -/
def dismissal (e : LobbyError) : List Frame := [.message (Message.error e.message), .closed]

structure Move.Calm (mv : Move) : Prop where
  look : mv ≠ .look
  stop : mv ≠ .act .stop
  enroll : mv ≠ .act .enroll

/-- All that can become of a line. A client waits until the lobby takes up the request or stops;
what is queued for it afterwards is what the lobby tells its connection. -/
inductive Attends (s : Server) (mv : Move) (i : Nat) (s' : Server) :
    Option Line → Option Line → Prop where
  | kept {o} (look : mv ≠ .look) (waits : ∀ name client, o = some (.waiting name client) →
      mv ≠ .act .stop ∧ (mv = .act .enroll → s.requests.head? ≠ some i)) :
    Attends s mv i s' o o
  | linked {l l'} (nothing : l.NothingQueued l') :
    Attends s mv i s' (some (.opened l)) (some (.opened l'))
  | queued {l : Link} {m} (sent : s.deed? mv = some (.tell l.socket m)) :
    Attends s mv i s' (some (.opened l)) (some (.opened { l with queue := l.queue ++ [m] }))
  | looked {x} (move : mv = .look) : Attends s mv i s' (some x) (some (lookLine x).2)
  | absent : Attends s mv i s' none none
  | asked {name} (move : mv = .connect name) (named : Lobby.isNamed name)
    (here : i = s.lines.length) (live : s.closed = false)
    (queued : s'.requests = s.requests ++ [i]) :
    Attends s mv i s' none (some (.waiting name { room := s.room }))
  | turned {name e} (move : mv = .connect name)
    (why : e = .missingPlayerName ∧ Lobby.isNamed name = false ∨ e = .closed) :
    Attends s mv i s' none (some (.refused e (turnAway { room := s.room } [.closed])))
  | admitted {name client} (move : mv = .act .enroll) (next : s.requests = i :: s'.requests)
    (limits : s.lobby.checkLimits name = .ok ())
    (register : s'.lobby.register = { s.lobby.register with
      names := s.lobby.register.names.insert (s.lobby.register.last + 1) name
      last := s.lobby.register.last + 1 }) :
    Attends s mv i s' (some (.waiting name client))
      (some (.opened { Link.start (s.lobby.register.last + 1) name s.timing s.room s.now with
        client }))
  | refused {name client e} (move : mv = .act .enroll) (next : s.requests = i :: s'.requests)
    (limits : s.lobby.checkLimits name = .error e) (lobby : s'.lobby = s.lobby) :
    Attends s mv i s' (some (.waiting name client))
      (some (.refused e (turnAway client (dismissal e))))
  | stopped {name client} (move : mv = .act .stop) :
    Attends s mv i s' (some (.waiting name client))
      (some (.refused .closed (turnAway client [.closed])))

variable {s s' t : Server} {mv : Move} {i j n : Nat} {l l' : Link} {name : String}
  {client : Client} {e : LobbyError} {x : Line}

theorem unread_of_line {x : Line} (h : s.lines[i]? = some x) : s.unread i = (lookLine x).1 := by
  rw [unread, h]
  rfl

theorem unread_of_none (h : s.lines[i]? = none) : s.unread i = [] := by
  rw [unread, h]
  rfl

theorem Attends.of_calm (h : mv.Calm) (o : Option Line) : s.Attends mv i s' o o :=
  .kept h.look fun _ _ _ => ⟨h.stop, fun he => (h.enroll he).elim⟩

theorem attends_same (calm : mv.Calm) (h : s'.lines = s.lines) :
    s.Attends mv i s' s.lines[i]? s'.lines[i]? := by
  rw [h]
  exact .of_calm calm _

theorem attends_set (h : s'.lines = s.lines.set j x)
    (others : j ≠ i → s.Attends mv i s' s.lines[i]? s.lines[i]?)
    (hj : s.Attends mv j s' s.lines[j]? (some x)) :
    s.Attends mv i s' s.lines[i]? s'.lines[i]? := by
  rw [h, List.getElem?_set]
  split
  · rename_i hij
    subst hij
    split
    · exact hj
    · rename_i hlt
      rw [List.getElem?_eq_none (Nat.not_lt.1 hlt)]
      exact .absent
  · exact others ‹_›

theorem attends_opened (calm : mv.Calm) (hl : s.lines[j]? = some (.opened l))
    (h : s'.lines = s.lines.set j (.opened l'))
    (hj : s.Attends mv j s' (some (.opened l)) (some (.opened l'))) :
    s.Attends mv i s' s.lines[i]? s'.lines[i]? :=
  attends_set h (fun _ => .of_calm calm _) (hl ▸ hj)

theorem attends_map {f : Line → Line} (h : s'.lines = s.lines.map f)
    (hf : ∀ x, s.Attends mv i s' (some x) (some (f x))) :
    s.Attends mv i s' s.lines[i]? s'.lines[i]? := by
  rw [h, List.getElem?_map]
  cases s.lines[i]? with
  | none => exact .absent
  | some x => exact hf x

theorem attends_concat (calm : mv.Calm) (h : s'.lines = s.lines ++ [x])
    (hx : s.Attends mv s.lines.length s' none (some x)) :
    s.Attends mv i s' s.lines[i]? s'.lines[i]? := by
  rw [h]
  by_cases hi : i < s.lines.length
  · rw [List.getElem?_append_left hi]
    exact .of_calm calm _
  · rw [List.getElem?_append_right (Nat.not_lt.1 hi), List.getElem?_eq_none (Nat.not_lt.1 hi)]
    cases hd : i - s.lines.length with
    | zero =>
      obtain rfl : i = s.lines.length := by omega
      exact hx
    | succ d => exact .absent

theorem nothingQueued_touch {f : Link → Link} (h : mv.touch? = some (i, f)) (l : Link) :
    l.NothingQueued (f l) := by
  cases mv <;> cases h
  case send f => exact l.nothingQueued_send f
  case drop | mute => exact .of_eq rfl rfl rfl rfl fun _ => id
  case sip n => exact l.nothingQueued_sip n
  case unmute => exact l.nothingQueued_unmute

theorem attends_touch {f : Link → Link} (touch : mv.touch? = some (j, f)) :
    s.Attends mv i (s.change j f) s.lines[i]? (s.change j f).lines[i]? := by
  have hcalm : mv.Calm := by
    refine ⟨?_, ?_, ?_⟩ <;> rintro rfl <;> cases touch
  rw [change]
  split
  · rename_i l hl
    exact attends_opened hcalm hl rfl (.linked (nothingQueued_touch touch l))
  · exact .of_calm hcalm _

theorem attends_move (h : s.move mv = some s') (i : Nat) :
    s.Attends mv i s' s.lines[i]? s'.lines[i]? := by
  have hothers {j : Nat} {rest : List Nat} (hnext : s.requests = j :: rest) (hne : j ≠ i) :
      s.Attends (.act .enroll) i s' s.lines[i]? s.lines[i]? :=
    .kept nofun fun _ _ _ => ⟨nofun, fun _ he => hne (by simpa [hnext] using he)⟩
  cases does_move h with
  | hears | forgets | routes | passes | loses | plays | waits =>
    refine attends_same ?_ rfl
    exact ⟨nofun, nofun, nofun⟩
  | stops =>
    refine attends_map rfl fun x => ?_
    cases x with
    | waiting name client => exact .stopped rfl
    | refused | opened => exact .kept nofun fun _ _ hx => by cases hx
  | admits free next waits limits =>
    have hregister := Lobby.register_enroll limits
    have hlimits := Lobby.enroll_limits limits
    obtain ⟨-, -, rfl⟩ := Lobby.enroll_eq_ok limits
    exact attends_set rfl (hothers next) (waits ▸ .admitted rfl next hlimits hregister)
  | refuses free next waits limits =>
    exact attends_set rfl (hothers next) (waits ▸ .refused rfl next (Lobby.enroll_error limits) rfl)
  | skips free next away =>
    refine .kept nofun fun name client hi => ⟨nofun, fun _ he => ?_⟩
    obtain rfl := Option.some.inj ((congrArg List.head? next).symm.trans he)
    exact away name client hi
  | queues due sent found link =>
    refine attends_opened ?_ link rfl (.queued (by rw [sent, socket_of_isFor found link]))
    exact ⟨nofun, nofun, nofun⟩
  | acts link act =>
    refine attends_opened ?_ link rfl (.linked (Link.nothingQueued_act act))
    exact ⟨nofun, nofun, nofun⟩
  | asks named live =>
    refine attends_concat ?_ rfl (.asked rfl named rfl live rfl)
    exact ⟨nofun, nofun, nofun⟩
  | turns why =>
    refine attends_concat ?_ rfl (.turned rfl (why.imp_right And.left))
    exact ⟨nofun, nofun, nofun⟩
  | touches touch => exact attends_touch touch
  | looks =>
    change s.Attends .look i _ s.lines[i]? (s.lines.map fun x => (lookLine x).2)[i]?
    rw [List.getElem?_map]
    cases s.lines[i]? with
    | none => exact .absent
    | some x => exact .looked rfl
  | cancels =>
    refine attends_map rfl fun x => ?_
    cases x with
    | opened l => exact .linked (.of_eq rfl rfl rfl rfl fun _ => id)
    | waiting | refused =>
      refine .of_calm ?_ _
      exact ⟨nofun, nofun, nofun⟩

inductive Queues (s : Server) (mv : Move) (s' : Server) : Prop where
  | kept (stop : mv ≠ .act .stop) (enroll : mv ≠ .act .enroll) (same : s'.requests = s.requests)
  | asked {name : String} (move : mv = .connect name)
    (line : s'.lines[s.lines.length]? = some (.waiting name { room := s.room }))
    (queued : s'.requests = s.requests ++ [s.lines.length])
  | taken {i : Nat} (move : mv = .act .enroll) (next : s.requests = i :: s'.requests)
  | cleared (move : mv = .act .stop) (none : s'.requests = [])

theorem requests_move (h : s.move mv = some s') : s.Queues mv s' := by
  cases does_move h with
  | stops => exact .cleared rfl rfl
  | admits free next | refuses free next | skips free next => exact .taken rfl next
  | asks => exact .asked rfl List.getElem?_concat_length rfl
  | touches touch =>
    rw [change_eq]
    refine .kept ?_ ?_ rfl <;> rintro rfl <;> cases touch
  | _ => exact .kept nofun nofun rfl

/-- The requests are those of the clients that wait, who all have given a name. -/
structure Attended (s : Server) : Prop where
  mem_requests : ∀ i, i ∈ s.requests ↔ ∃ name client, s.lines[i]? = some (.waiting name client)
  nodup : s.requests.Nodup
  named : ∀ {i : Nat} {name client}, s.lines[i]? = some (.waiting name client) →
    Lobby.isNamed name

theorem Fresh.attended (h : s.Fresh) : s.Attended where
  mem_requests i := by simp [h.requests, h.lines]
  nodup := by simp [h.requests]
  named := by simp [h.lines]

theorem waiting_before (h : s.move mv = some s') (hi : s'.lines[i]? = some (.waiting name client)) :
    (∃ client, s.lines[i]? = some (.waiting name client)) ∧ mv ≠ .act .stop ∧
        (mv = .act .enroll → s.requests.head? ≠ some i) ∨
      mv = .connect name ∧ Lobby.isNamed name ∧ s'.requests = s.requests ++ [i] := by
  have hatt := attends_move h i
  generalize s.lines[i]? = x, s'.lines[i]? = y at hi hatt
  cases hatt with
  | kept look waits => exact .inl ⟨⟨client, hi⟩, waits name client hi⟩
  | @looked x move =>
    refine .inl ⟨?_, by simp [move], by simp [move]⟩
    cases x with
    | waiting n c =>
      obtain ⟨rfl, -⟩ := Line.waiting.inj (Option.some.inj hi)
      exact ⟨c, rfl⟩
    | refused | opened => cases hi
  | asked move named here live queued =>
    obtain ⟨rfl, -⟩ := Line.waiting.inj (Option.some.inj hi)
    exact .inr ⟨move, named, queued⟩
  | linked | queued | turned | admitted | refused | stopped => cases hi
  | absent => cases hi

theorem waiting_after (h : s.move mv = some s') (hi : s.lines[i]? = some (.waiting name client)) :
    (∃ client, s'.lines[i]? = some (.waiting name client)) ∨
      mv = .act .enroll ∧ s.requests = i :: s'.requests ∨ mv = .act .stop := by
  have hatt := attends_move h i
  rw [hi] at hatt
  generalize s'.lines[i]? = x at hatt
  cases hatt with
  | kept look waits => exact .inl ⟨client, rfl⟩
  | looked move => exact .inl ⟨_, rfl⟩
  | admitted move next | refused move next => exact .inr (.inl ⟨move, next⟩)
  | stopped move => exact .inr (.inr move)

theorem Attended.move (hs : s.Attended) (h : s.move mv = some s') : s'.Attended where
  mem_requests i := by
    constructor
    · intro hi
      have hold (hi : i ∈ s.requests) (hstop : mv ≠ .act .stop)
          (henroll : mv = .act .enroll → s.requests ≠ i :: s'.requests) :
          ∃ name client, s'.lines[i]? = some (.waiting name client) := by
        obtain ⟨name, client, hw⟩ := (hs.mem_requests i).1 hi
        obtain ⟨client', hw'⟩ | ⟨he, hnext⟩ | he := waiting_after h hw
        · exact ⟨name, client', hw'⟩
        · exact (henroll he hnext).elim
        · exact (hstop he).elim
      cases requests_move h with
      | kept stop enroll same => exact hold (same ▸ hi) stop fun he => (enroll he).elim
      | cleared move none => simp [none] at hi
      | asked move line queued =>
        rw [queued] at hi
        obtain hi | hi := List.mem_append.1 hi
        · exact hold hi (by simp [move]) (by simp [move])
        · exact List.mem_singleton.1 hi ▸ ⟨_, _, line⟩
      | taken move next =>
        refine hold (next ▸ List.mem_cons_of_mem _ hi) (by simp [move]) fun _ hnext => ?_
        exact (List.nodup_cons.1 (hnext ▸ hs.nodup)).1 hi
    · rintro ⟨name, client, hi⟩
      obtain ⟨⟨client', hw⟩, hstop, henroll⟩ | ⟨-, -, hqueued⟩ := waiting_before h hi
      · have hmem := (hs.mem_requests i).2 ⟨_, _, hw⟩
        cases requests_move h with
        | kept stop enroll same => rwa [same]
        | cleared move => exact (hstop move).elim
        | asked move line queued => exact queued ▸ List.mem_append_left _ hmem
        | taken move next =>
          rw [next] at hmem
          refine (List.mem_cons.1 hmem).resolve_left fun he => henroll move ?_
          rw [next, he]
          rfl
      · rw [hqueued]
        simp
  nodup := by
    cases requests_move h with
    | kept stop enroll same => exact same ▸ hs.nodup
    | cleared move none => simp [none]
    | taken move next => exact (List.nodup_cons.1 (next ▸ hs.nodup)).2
    | asked move line queued =>
      rw [queued, List.nodup_append]
      refine ⟨hs.nodup, by simp, fun i hi j hj he => ?_⟩
      obtain ⟨_, _, hw⟩ := (hs.mem_requests i).1 hi
      have hlt := (List.getElem?_eq_some_iff.1 hw).1
      rw [he, List.mem_singleton.1 hj] at hlt
      exact Nat.lt_irrefl _ hlt
  named hi := by
    obtain ⟨⟨_, hw⟩, -⟩ | ⟨-, hnamed, -⟩ := waiting_before h hi
    · exact hs.named hw
    · exact hnamed

/-- All that can become of the register: a connection is entered when it is let in, and struck off
when its end is heard of. -/
inductive Registers (s : Server) (mv : Move) (s' : Server) : Prop where
  | kept (same : s'.lobby.register = s.lobby.register)
    (hear : ∀ name k rest, mv = .act .hear → s.events ≠ .closed name k :: rest)
    (enroll : mv = .act .enroll → s'.lobby = s.lobby)
  | admitted {i : Nat} {name : String} {client : Client} (move : mv = .act .enroll)
    (next : s.requests = i :: s'.requests)
    (waits : s.lines[i]? = some (.waiting name client))
    (limits : s.lobby.checkLimits name = .ok ())
    (register : s'.lobby.register = { s.lobby.register with
      names := s.lobby.register.names.insert (s.lobby.register.last + 1) name
      last := s.lobby.register.last + 1 })
  | forgot {name : String} {k : SocketId} {rest : List Event} (move : mv = .act .hear)
    (event : s.events = .closed name k :: rest)
    (register : s'.lobby.register =
      { s.lobby.register with names := s.lobby.register.names.erase k })

/-- The request that is taken up comes from a client that waits, who is let in or turned away. -/
inductive Settles (s : Server) (i : Nat) (name : String) (client : Client) (s' : Server) :
    Prop where
  | admitted (limits : s.lobby.checkLimits name = .ok ())
    (register : s'.lobby.register = { s.lobby.register with
      names := s.lobby.register.names.insert (s.lobby.register.last + 1) name
      last := s.lobby.register.last + 1 })
    (line : s'.lines[i]? = some (.opened
      { Link.start (s.lobby.register.last + 1) name s.timing s.room s.now with client }))
  | refused {e : LobbyError} (limits : s.lobby.checkLimits name = .error e)
    (lobby : s'.lobby = s.lobby)
    (line : s'.lines[i]? = some (.refused e (turnAway client (dismissal e))))

theorem Attended.enroll (hs : s.Attended) (h : s.move (.act .enroll) = some s') :
    ∃ i name client, s.requests = i :: s'.requests ∧
      s.lines[i]? = some (.waiting name client) ∧ s.Settles i name client s' := by
  cases requests_move h with
  | kept stop enroll => exact (enroll rfl).elim
  | asked move => cases move
  | cleared move => cases move
  | @taken i move next =>
    obtain ⟨name, client, hw⟩ := (hs.mem_requests i).1 (by simp [next])
    refine ⟨i, name, client, next, hw, ?_⟩
    have hatt := attends_move h i
    rw [hw] at hatt
    generalize hx : s'.lines[i]? = x at hatt
    cases hatt with
    | kept look waits => exact ((waits name client rfl).2 rfl (by simp [next])).elim
    | admitted move next limits register => exact .admitted limits register hx
    | refused move next limits lobby => exact .refused limits lobby hx
    | looked move | stopped move => cases move

theorem Attended.registers (hs : s.Attended) (h : s.move mv = some s') : s.Registers mv s' := by
  by_cases enroll : mv = .act .enroll
  · subst enroll
    obtain ⟨i, name, client, hnext, hw, hsettles⟩ := hs.enroll h
    cases hsettles with
    | admitted limits register line => exact .admitted rfl hnext hw limits register
    | refused limits lobby => exact .kept (by rw [lobby]) nofun fun _ => lobby
  cases does_move h with
  | admits | refuses | skips => exact (enroll rfl).elim
  | hears free event =>
    exact .kept (s.lobby.register_receive _ _) (fun _ _ _ _ he => by cases event.symm.trans he)
      nofun
  | forgets free event => exact .forgot rfl event (s.lobby.register_forget _)
  | routes => exact .kept (Lobby.register_report _ _) nofun nofun
  | touches touch =>
    rw [change_eq]
    refine .kept rfl ?_ (fun he => (enroll he).elim)
    rintro name k rest rfl
    cases touch
  | _ => exact .kept rfl nofun nofun

end Server

end TileRace
