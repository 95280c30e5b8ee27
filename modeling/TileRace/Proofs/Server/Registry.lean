import TileRace.Proofs.Game.Conservation
import TileRace.Proofs.Game.Session
import TileRace.Registry

namespace TileRace.Registry

def underway (r : Registry) (n : Nat) : List Message := (r.reports.filter (·.1 = n)).map (·.2)

def game? (r : Registry) (n : Nat) : Option Game := (r.sessions.get? n).map (·.game)

/-- The requests that a session has not handled yet. A session that has ended has none. -/
def inbox (r : Registry) (n : Nat) : List Message :=
  ((r.sessions.get? n).map (·.inbox)).getD []

/-- No id is left for a new game, although the limit allows for one. -/
def exhausted (r : Registry) : Bool := !r.isFull && UInt32.size - 1 ≤ r.size

variable {r r' : Registry} {m : Message} {n k now : Nat} {a : Session.Act} {c : Created}

theorem firstMissing_spec {ids : List GameId} {first : GameId} (hs : ids.Pairwise (· < ·))
    (hfirst : ∀ k ∈ ids, first ≤ k) (hn : ids.length < UInt32.size - first.toNat) :
    first ≤ firstMissing first ids ∧ firstMissing first ids ∉ ids := by
  induction ids generalizing first with
  | nil => exact ⟨UInt32.le_refl _, List.not_mem_nil⟩
  | cons k ids ih =>
    obtain ⟨hk, hs⟩ := List.pairwise_cons.1 hs
    rw [firstMissing]
    split
    · rename_i he
      subst he
      rw [List.length_cons] at hn
      have hnext : (k + 1).toNat = k.toNat + 1 :=
        (UInt32.toNat_add k 1).trans (Nat.mod_eq_of_lt (by rw [UInt32.size] at hn; simp; omega))
      have hle : ∀ x ∈ ids, k + 1 ≤ x := fun x hx => by
        rw [UInt32.le_iff_toNat_le, hnext]
        exact UInt32.lt_iff_toNat_lt.1 (hk x hx)
      obtain ⟨hlt, hmem⟩ := ih hs hle (by omega)
      rw [UInt32.le_iff_toNat_le, hnext] at hlt
      refine ⟨UInt32.le_iff_toNat_le.2 (by omega), fun h => ?_⟩
      obtain h | h := List.mem_cons.1 h
      · rw [h] at hlt
        omega
      · exact hmem h
    · rename_i hne
      refine ⟨UInt32.le_refl _, fun h => ?_⟩
      obtain h | h := List.mem_cons.1 h
      · exact hne h.symm
      · exact UInt32.not_lt.2 (hfirst k List.mem_cons_self) (hk _ h)

/-- As long as there are ids left, a new game gets a positive one that is free. -/
theorem nextId_free (h0 : r.rooms.get? 0 = none) (hfull : r.isFull = false)
    (hleft : r.exhausted = false) : r.nextId ≠ 0 ∧ r.rooms.get? r.nextId = none := by
  have hn : r.rooms.keys.length < UInt32.size - (1 : GameId).toNat := by
    rw [exhausted, hfull, Bool.not_false, Bool.true_and, decide_eq_false_iff_not] at hleft
    simpa [Table.keys, size, Table.size] using hleft
  have hs : r.rooms.keys.Pairwise (· < ·) :=
    List.pairwise_map.2 (r.rooms.sorted.imp Std.compare_eq_lt.1)
  have hpos : ∀ k ∈ r.rooms.keys, (1 : GameId) ≤ k := by
    intro k hk
    have hne : k ≠ 0 := fun h => Table.not_mem_keys.2 h0 (h ▸ hk)
    rw [UInt32.le_iff_toNat_le]
    exact Nat.pos_of_ne_zero fun h => hne (UInt32.toNat_inj.1 h)
  obtain ⟨hlt, hmem⟩ := firstMissing_spec hs hpos hn
  refine ⟨fun h => ?_, Table.not_mem_keys.1 hmem⟩
  rw [nextId] at h
  rw [h] at hlt
  exact absurd hlt (by decide)

structure Opens (r : Registry) (m : Message) (c : Created) (s : Session) : Prop where
  notFull : r.isFull = false
  id : s.game.id = r.nextId
  players : s.game.players = []
  quiet : s.inbox = []
  session : c.session = r.started
  kind : c.join.kind = .joinGame
  socket : c.join.socket = m.socket
  registry : c.registry = { r with
    rooms := r.rooms.insert r.nextId r.started
    sessions := r.sessions.insert r.started s
    places := r.places ++ [r.started]
    started := r.started + 1 }

theorem create_founds (h : r.create now m = .ok c) : ∃ rules grid game, r.isFull = false ∧
    Game.setUp r.nextId r.settings rules grid r.words (UInt64.ofNat (now / Time.millisecond)) =
      .ok game ∧
    c = {
      id := r.nextId
      session := r.started
      join := { m.reply .joinGame with gameId := some r.nextId, grid := m.grid }
      registry := { r with
        rooms := r.rooms.insert r.nextId r.started
        sessions := r.sessions.insert r.started
          { Session.start game now with cancelled := r.cancelled }
        places := r.places ++ [r.started]
        started := r.started + 1 } } := by
  simp only [create] at h
  split at h
  · cases h
  rename_i hfull
  split at h
  · cases h
  rename_i grid hgrid
  split at h
  · cases h
  split at h
  · cases h
  rename_i rules hrules
  simp only [bind_eq_ok, mapError_eq_ok, pure_eq_ok] at h
  obtain ⟨game, hgame, rfl⟩ := h
  rw [hgrid]
  exact ⟨rules, grid, game, by simpa using hfull, hgame, rfl⟩

theorem create_eq_ok (h : r.create now m = .ok c) : ∃ s, r.Opens m c s := by
  obtain ⟨rules, grid, game, hfull, hgame, rfl⟩ := create_founds h
  have hset := Game.setUp_eq_ok hgame
  exact ⟨_, hfull, congrArg Game.id hset, congrArg Game.players hset, rfl, rfl, rfl, rfl, rfl⟩

theorem join_create (h : r.create now m = .ok c) :
    c.join = { m.reply .joinGame with gameId := some r.nextId, grid := m.grid } := by
  obtain ⟨_, _, _, -, -, rfl⟩ := create_founds h
  rfl

theorem find_eq_ok : r.find m = .ok n ↔ ∃ id, m.gameId = some id ∧ r.rooms.get? id = some n := by
  rw [find]
  split
  · rename_i hid
    simp [hid]
  · rename_i id hid
    split <;> rename_i hroom <;> simp [hid, hroom]

theorem Opens.rooms {s : Session} (h : r.Opens m c s) (id : GameId) :
    c.registry.rooms.get? id = if id = r.nextId then some r.started else r.rooms.get? id := by
  rw [h.registry]
  exact Table.get?_insert _ _ _ _

theorem Opens.underway {s : Session} (h : r.Opens m c s) (k : Nat) :
    c.registry.underway k = r.underway k := by
  rw [h.registry]
  rfl

theorem Opens.game? {s : Session} (h : r.Opens m c s) (k : Nat) :
    c.registry.game? k = if k = r.started then some s.game else r.game? k := by
  rw [Registry.game?, h.registry, Table.get?_insert]
  split <;> rfl

theorem Opens.inbox {s : Session} (h : r.Opens m c s) (k : Nat) :
    c.registry.inbox k = if k = r.started then [] else r.inbox k := by
  rw [Registry.inbox, h.registry, Table.get?_insert]
  split
  · exact h.quiet
  · rfl

/-- The two registries have the same rooms, games and reports. -/
structure Alike (r r' : Registry) : Prop where
  rooms : r'.rooms = r.rooms
  started : r'.started = r.started
  game? : ∀ k, r'.game? k = r.game? k
  underway : ∀ k, r'.underway k = r.underway k

theorem game?_modify (f : Session → Session) (hf : ∀ s, (f s).game = s.game) (k : Nat) :
    ((r.sessions.modify n f).get? k).map (·.game) = r.game? k := by
  rw [Table.get?_modify, game?]
  split
  · rw [Option.map_map]
    exact congrArg (Option.map · _) (funext hf)
  · rfl

theorem deliver_eq_accepted (h : r.deliver n m = .accepted r') :
    r.Alike r' ∧ ∀ k, r'.inbox k = r.inbox k ++ if k = n then [m] else [] := by
  rw [deliver] at h
  split at h
  · cases h
  rename_i s hs
  split at h
  · cases h
  split at h
  · obtain rfl := Delivery.accepted.inj h
    refine ⟨⟨rfl, rfl, game?_modify _ fun _ => rfl, fun _ => rfl⟩, fun k => ?_⟩
    rw [inbox, Table.get?_modify, inbox]
    split
    · rename_i hk
      rw [hk, hs]
      rfl
    · rw [List.append_nil]
  · cases h

theorem alike_cancel (r : Registry) : r.Alike r.cancel := by
  refine ⟨rfl, rfl, fun k => ?_, fun _ => rfl⟩
  rw [game?, cancel, Table.get?_map, Option.map_map]
  rfl

theorem inbox_cancel (r : Registry) (k : Nat) : r.cancel.inbox k = r.inbox k := by
  rw [inbox, cancel, Table.get?_map, Option.map_map]
  rfl

/-- What comes of an act of a session. -/
structure Plays (r : Registry) (n : Nat) (s : Session) (result : Session.Result) (r' : Registry) :
    Prop where
  session : r.sessions.get? n = some s
  rooms : r'.rooms = r.rooms
  started : r'.started = r.started
  sessions : ∀ k, r'.sessions.get? k = if k = n then result.session else r.sessions.get? k
  underway : ∀ k, r'.underway k = r.underway k ++ if k = n then result.out else []

theorem Plays.game? {s : Session} {result : Session.Result} (h : r.Plays n s result r') (k : Nat) :
    r'.game? k = if k = n then result.session.map (·.game) else r.game? k := by
  rw [Registry.game?, h.sessions]
  split <;> rfl

theorem act_eq_some (h : r.act now n a = some r') : ∃ s result,
    s.act now a = some result ∧ r.Plays n s result r' := by
  rw [act] at h
  split at h
  · cases h
  rename_i s hs
  obtain ⟨result, hresult, rfl⟩ := Option.map_eq_some_iff.1 h
  refine ⟨s, result, hresult, hs, rfl, rfl, fun k => ?_, fun k => ?_⟩
  · cases result.session with
    | none => exact Table.get?_erase _ _ _
    | some s' => exact Table.get?_insert _ _ _ _
  · rw [Registry.underway, List.filter_append, List.map_append]
    refine congrArg (_ ++ ·) ?_
    split
    · rename_i hk
      simp [List.filter_map, Function.comp_def, hk]
    · rename_i hk
      simp [List.filter_map, Function.comp_def, Ne.symm hk]

theorem handle_possible {s : Session} {rest : List Message} (hs : r.sessions.get? n = some s)
    (hruns : s.failed = false) (hnext : s.inbox = m :: rest) (now : Nat) :
    ∃ r', r.act now n .handle = some r' := by
  rw [act, hs]
  simp only [Session.act, hruns, hnext]
  exact ⟨_, rfl⟩

theorem fixed_act (h : r.act now n a = some r') :
    r'.capacity = r.capacity ∧ r'.cancelled = r.cancelled ∧ r'.settings = r.settings := by
  rw [act] at h
  split at h
  · cases h
  · obtain ⟨result, -, rfl⟩ := Option.map_eq_some_iff.1 h
    exact ⟨rfl, rfl, rfl⟩

theorem filter_eraseP_self {l : List (Nat × Message)} (h : l.lookup n = some m) :
    l.filter (·.1 = n) = (n, m) :: (l.eraseP (·.1 = n)).filter (·.1 = n) := by
  induction l with
  | nil => cases h
  | cons e l ih =>
    rw [Table.lookup_cons_ite] at h
    by_cases he : e.1 = n
    · rw [if_pos he.symm] at h
      rw [List.filter_cons_of_pos (by simpa using he), List.eraseP_cons_of_pos (by simpa using he)]
      rw [← Option.some.inj h, ← he]
    · rw [if_neg (Ne.symm he)] at h
      rw [List.filter_cons_of_neg (by simpa using he), List.eraseP_cons_of_neg (by simpa using he),
        List.filter_cons_of_neg (by simpa using he), ih h]

theorem filter_eraseP_ne {l : List (Nat × Message)} (hk : k ≠ n) :
    (l.eraseP (·.1 = n)).filter (·.1 = k) = l.filter (·.1 = k) := by
  induction l with
  | nil => rfl
  | cons e l ih =>
    by_cases he : e.1 = n
    · rw [List.eraseP_cons_of_pos (by simpa using he),
        List.filter_cons_of_neg (by simpa [he] using Ne.symm hk)]
    · rw [List.eraseP_cons_of_neg (by simpa using he), List.filter_cons, List.filter_cons, ih]

structure Takes (r : Registry) (n : Nat) (m : Message) (r' : Registry) : Prop where
  rooms : r'.rooms = r.rooms
  started : r'.started = r.started
  sessions : r'.sessions = r.sessions
  head : r.underway n = m :: r'.underway n
  others : ∀ k, k ≠ n → r'.underway k = r.underway k

theorem Takes.game? (h : r.Takes n m r') (k : Nat) : r'.game? k = r.game? k := by
  rw [Registry.game?, h.sessions, Registry.game?]

theorem Takes.mem {o : Message} (h : r.Takes n m r') (ho : o ∈ r'.underway k) :
    o ∈ r.underway k := by
  by_cases hk : k = n
  · subst hk
    exact h.head ▸ List.mem_cons_of_mem _ ho
  · exact h.others k hk ▸ ho

theorem takeReport_eq_some (h : r.takeReport n = some (m, r')) : r.Takes n m r' := by
  obtain ⟨m', hm, he⟩ := Option.map_eq_some_iff.1 h
  obtain ⟨rfl, rfl⟩ := Prod.mk.inj he
  refine ⟨rfl, rfl, rfl, ?_, fun k hk => ?_⟩
  · rw [underway, filter_eraseP_self hm]
    rfl
  · rw [underway, filter_eraseP_ne hk, underway]

/-- Only a room is given up. -/
structure Removes (r : Registry) (id : GameId) (r' : Registry) : Prop where
  rooms : r'.rooms = r.rooms.erase id
  started : r'.started = r.started
  game? : ∀ k, r'.game? k = r.game? k
  inbox : ∀ k, r'.inbox k = r.inbox k
  underway : ∀ k, r'.underway k = r.underway k

theorem removes_remove (r : Registry) (id : GameId) : r.Removes id (r.remove id) := by
  rw [remove]
  split
  · rename_i h
    exact ⟨(Table.erase_of_get?_eq_none h).symm, rfl, fun _ => rfl, fun _ => rfl, fun _ => rfl⟩
  · refine ⟨rfl, rfl, game?_modify _ fun _ => rfl, fun k => ?_, fun _ => rfl⟩
    rw [Registry.inbox, Table.get?_modify]
    split
    · rw [Option.map_map]
      rfl
    · rfl

theorem fixed_remove (r : Registry) (id : GameId) :
    (r.remove id).capacity = r.capacity ∧ (r.remove id).cancelled = r.cancelled ∧
      (r.remove id).settings = r.settings := by
  rw [remove]
  split <;> exact ⟨rfl, rfl, rfl⟩

theorem sessions_remove (r : Registry) (id : GameId) (k : Nat) :
    (r.remove id).sessions.get? k = (r.sessions.get? k).map fun s =>
      if r.rooms.get? id = some k then { s with cancelled := true } else s := by
  rw [remove]
  split
  · rename_i hroom
    simp [hroom]
  · rename_i n hroom
    rw [Table.get?_modify]
    by_cases hk : k = n
    · simp [hroom, hk]
    · simp [hroom, hk, Ne.symm hk]

structure Gone (r : Registry) (n : Nat) : Prop where
  started : n < r.started
  game? : r.game? n = none
  underway : r.underway n = []

end TileRace.Registry
