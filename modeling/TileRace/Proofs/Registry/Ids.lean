import Mathlib.Order.Bounds.Defs
import TileRace.Proofs.Registry.Delivery

namespace TileRace

namespace Registry

variable {r r' : Registry} {m : Message} {c : Created} {id first k : GameId} {ids : List GameId}
  {n now : Nat}

theorem toNat_succ (h : first.toNat + 1 < UInt32.size) : (first + 1).toNat = first.toNat + 1 :=
  (UInt32.toNat_add first 1).trans (Nat.mod_eq_of_lt h)

theorem toNat_lt_of_ne (hk : first ≤ k) (hne : k ≠ first) : first.toNat < k.toNat := by
  apply Nat.lt_of_le_of_ne (UInt32.le_iff_toNat_le.1 hk)
  intro h
  exact hne (UInt32.toNat_inj.1 h).symm

theorem succ_le_of_ne (hk : first ≤ k) (hne : k ≠ first) : first + 1 ≤ k := by
  have hlt := toNat_lt_of_ne hk hne
  rw [UInt32.le_iff_toNat_le, toNat_succ (Nat.lt_of_le_of_lt hlt k.toNat_lt)]
  exact hlt

theorem mem_of_lt_firstMissing (hk : first ≤ k) (hlt : k < firstMissing first ids) : k ∈ ids := by
  induction ids generalizing first with
  | nil => exact (UInt32.not_lt.2 hk hlt).elim
  | cons x ids ih =>
    rw [firstMissing] at hlt
    split at hlt
    · rename_i hx
      by_cases hfirst : k = first
      · exact List.mem_cons.2 (.inl (hfirst.trans hx.symm))
      · exact List.mem_cons_of_mem _ (ih (succ_le_of_ne hk hfirst) hlt)
    · exact (UInt32.not_lt.2 hk hlt).elim

theorem toNat_firstMissing_le (hn : first.toNat + ids.length < UInt32.size) :
    (firstMissing first ids).toNat ≤ first.toNat + ids.length := by
  induction ids generalizing first with
  | nil => exact Nat.le_refl _
  | cons x ids ih =>
    rw [List.length_cons] at hn ⊢
    rw [firstMissing]
    split
    · have hnext : (first + 1).toNat = first.toNat + 1 := toNat_succ (by omega)
      have hle := ih (by rw [hnext]; omega)
      omega
    · omega

theorem contains_iff : r.contains id ↔ id ∈ r.rooms.keys := by
  rw [contains, Table.contains, Option.isSome_iff_exists, Table.mem_keys]

theorem length_keys : r.rooms.keys.length = r.size := List.length_map _

theorem one_le_iff : 1 ≤ id ↔ 0 < id := by
  rw [UInt32.le_iff_toNat_le, UInt32.lt_iff_toNat_lt]
  rfl

/-- Some games are registered, not too many, and their ids are positive and low. -/
structure Housed (r : Registry) : Prop where
  room : r.size ≤ r.maxGames.toNat
  ids : ∀ id, r.contains id → 0 < id ∧ id.toNat ≤ r.maxGames.toNat

theorem Housed.zero (h : r.Housed) : r.rooms.get? 0 = none := by
  apply Table.not_mem_keys.1
  intro hmem
  have hpos := (h.ids 0 (contains_iff.2 hmem)).1
  exact absurd hpos (by decide)

theorem Housed.not_exhausted (h : r.Housed) (hmax : r.maxGames.toNat < UInt32.size - 1) :
    r.exhausted = false := by
  have hroom := h.room
  rw [exhausted, Bool.and_eq_false_iff, decide_eq_false_iff_not]
  exact .inr (by omega)

theorem isFull_eq_false_iff : r.isFull = false ↔ r.size < r.maxGames.toNat := by
  rw [isFull, decide_eq_false_iff_not, Nat.not_le]

theorem Housed.isLeast_nextId (h : r.Housed) (hmax : r.maxGames.toNat < UInt32.size - 1)
    (hfull : r.isFull = false) : IsLeast {id | 0 < id ∧ ¬ r.contains id} r.nextId := by
  obtain ⟨hne, hfree⟩ := nextId_free h.zero hfull (h.not_exhausted hmax)
  refine ⟨⟨?_, fun hmem => ?_⟩, fun id ⟨hpos, hid⟩ => ?_⟩
  · apply UInt32.lt_iff_toNat_lt.2
    apply Nat.pos_of_ne_zero
    intro hzero
    exact hne (UInt32.toNat_inj.1 hzero)
  · exact Table.not_mem_keys.2 hfree (contains_iff.1 hmem)
  · by_contra hlt
    apply hid
    apply contains_iff.2
    exact mem_of_lt_firstMissing (one_le_iff.2 hpos) (UInt32.not_le.1 hlt)

theorem toNat_nextId_le (hsize : r.size < UInt32.size - 1) : r.nextId.toNat ≤ r.size + 1 := by
  have hle : r.nextId.toNat ≤ (1 : GameId).toNat + r.rooms.keys.length :=
    toNat_firstMissing_le (by rw [length_keys, UInt32.toNat_one]; omega)
  rwa [length_keys, UInt32.toNat_one, Nat.add_comm] at hle

/-- Tries one id after the other, `n` at most, and never counts beyond the largest number. -/
def search (r : Registry) : Nat → GameId → Option GameId
  | 0, _ => none
  | n + 1, k =>
    if r.contains k then if k.toNat + 1 < UInt32.size then r.search n (k + 1) else none else some k

theorem search_eq (hused : ∀ j, first ≤ j → j < id → r.contains j) (hfree : ¬ r.contains id)
    (hle : first ≤ id) (hn : id.toNat - first.toNat < n) : r.search n first = some id := by
  induction n generalizing first with
  | zero => omega
  | succ n ih =>
    by_cases hfirst : first = id
    · subst hfirst
      rw [search, if_neg hfree]
    · have hnext := succ_le_of_ne hle (Ne.symm hfirst)
      have hlt := toNat_lt_of_ne hle (Ne.symm hfirst)
      have hsize : first.toNat + 1 < UInt32.size := Nat.lt_of_le_of_lt hlt id.toNat_lt
      have hsucc := toNat_succ hsize
      rw [search, if_pos (hused first (UInt32.le_refl _) (UInt32.lt_iff_toNat_lt.2 hlt)),
        if_pos hsize]
      apply ih _ hnext (by omega)
      intro j hj
      apply hused
      apply UInt32.le_trans _ hj
      rw [UInt32.le_iff_toNat_le, hsucc]
      exact Nat.le_succ _

theorem Housed.search_eq_nextId (h : r.Housed) (hmax : r.maxGames.toNat < UInt32.size - 1)
    (hfull : r.isFull = false) : r.search (r.size + 1) 1 = some r.nextId := by
  obtain ⟨⟨hpos, hfree⟩, hleast⟩ := h.isLeast_nextId hmax hfull
  apply search_eq _ hfree (one_le_iff.2 hpos)
  · have hle := toNat_nextId_le (Nat.lt_of_le_of_lt h.room hmax)
    rw [UInt32.toNat_one]
    omega
  · intro j hj hlt
    by_contra hunused
    have hle := hleast ⟨one_le_iff.1 hj, hunused⟩
    exact absurd hle (UInt32.not_le.2 hlt)

inductive Rehouses (r r' : Registry) : Prop where
  | kept (limit : r'.maxGames = r.maxGames) (rooms : r'.rooms = r.rooms)
  | opened {n : Nat} (limit : r'.maxGames = r.maxGames) (notFull : r.isFull = false)
    (rooms : r'.rooms = r.rooms.insert r.nextId n)
  | closed {id : GameId} (limit : r'.maxGames = r.maxGames) (rooms : r'.rooms = r.rooms.erase id)

theorem contains_insert (hrooms : r'.rooms = r.rooms.insert k n) :
    r'.contains id ↔ id = k ∨ r.contains id := by
  rw [contains, Table.contains, hrooms, Table.get?_insert, contains, Table.contains]
  split
  · rename_i hid
    simp [hid]
  · rename_i hid
    simp [hid]

theorem contains_erase (hrooms : r'.rooms = r.rooms.erase k) :
    r'.contains id ↔ id ≠ k ∧ r.contains id := by
  rw [contains, Table.contains, hrooms, Table.get?_erase, contains, Table.contains]
  split
  · rename_i hid
    simp [hid]
  · rename_i hid
    simp [hid]

theorem Housed.rehouses (h : r.Housed) (hmax : r.maxGames.toNat < UInt32.size - 1)
    (hr : r.Rehouses r') : r'.Housed := by
  have hroom := h.room
  cases hr with
  | kept limit rooms =>
    have hcontains (id : GameId) : r'.contains id = r.contains id := by
      rw [contains, rooms, contains]
    exact ⟨by rwa [size, rooms, limit], fun id hid => limit ▸ h.ids id (hcontains id ▸ hid)⟩
  | @opened n limit notFull rooms =>
    refine ⟨?_, fun id hid => ?_⟩
    · have hlt := isFull_eq_false_iff.1 notFull
      have hle := r.rooms.size_insert_le r.nextId n
      rw [← rooms] at hle
      rw [limit]
      exact Nat.le_trans hle hlt
    · rw [limit]
      obtain rfl | hid := (contains_insert rooms).1 hid
      · have hle := toNat_nextId_le (Nat.lt_of_le_of_lt hroom hmax)
        exact ⟨(h.isLeast_nextId hmax notFull).1.1,
          Nat.le_trans hle (isFull_eq_false_iff.1 notFull)⟩
      · exact h.ids id hid
  | @closed gone limit rooms =>
    refine ⟨?_, fun id hid => limit ▸ h.ids id ((contains_erase rooms).1 hid).2⟩
    have hle := (r.rooms.values_erase_sublist gone).length_le
    rw [← rooms, Table.length_values, Table.length_values] at hle
    rw [limit]
    exact Nat.le_trans hle hroom

theorem Rehouses.limit (h : r.Rehouses r') : r'.maxGames = r.maxGames := by
  cases h with
  | kept limit | opened limit | closed limit => exact limit

theorem Unopened.housed (h : r.Unopened) : r.Housed where
  room := by
    rw [size, h.rooms]
    exact Nat.zero_le _
  ids id hid := by
    rw [contains_iff, h.rooms] at hid
    cases hid

/-- A request for a new game is refused for want of space when there is none, and else it gets the
lowest free id, if it gets one, which the search comes to. No other game is touched. -/
structure Allots (r : Registry) (now : Nat) (m : Message) : Prop where
  refused : ∀ max, r.create now m = .error (.atCapacity max) ↔
    max = r.maxGames ∧ r.size = r.maxGames.toNat
  opened : ∀ c, r.create now m = .ok c → IsLeast {id | 0 < id ∧ ¬ r.contains id} c.id ∧
    r.search (r.size + 1) 1 = some c.id ∧
    (∀ id, c.registry.contains id ↔ id = c.id ∨ r.contains id) ∧
    ∀ id, id ≠ c.id → c.registry.rooms.get? id = r.rooms.get? id

/-- The game with an id is forgotten, if there is one, and no other. -/
structure Frees (r : Registry) (id : GameId) : Prop where
  told : r.close id = (r.contains id, r.remove id)
  freed : ∀ k, (r.remove id).contains k ↔ k ≠ id ∧ r.contains k
  kept : ∀ k, k ≠ id → (r.remove id).rooms.get? k = r.rooms.get? k

theorem create_eq_atCapacity {max : UInt64} :
    r.create now m = .error (.atCapacity max) ↔ max = r.maxGames ∧ r.isFull := by
  cases hfull : r.isFull with
  | true => simp [create, hfull, bind, Except.bind, throw, throwThe, MonadExceptOf.throw, eq_comm]
  | false =>
    refine ⟨fun h => ?_, fun h => Bool.noConfusion h.2⟩
    simp only [create, hfull, Bool.false_eq_true, if_false] at h
    split at h
    · cases h
    split at h
    · cases h
    split at h
    · cases h
    obtain h | ⟨_, -, h⟩ := bind_eq_error.1 h
    · obtain ⟨_, -, h⟩ := mapError_eq_error.1 h
      cases h
    · cases h

theorem Housed.allots (h : r.Housed) (hmax : r.maxGames.toNat < UInt32.size - 1) (now : Nat)
    (m : Message) : r.Allots now m where
  refused max := by
    have hroom := h.room
    rw [create_eq_atCapacity, isFull, decide_eq_true_iff]
    refine and_congr_right fun _ => ⟨fun hle => ?_, fun he => Nat.le_of_eq he.symm⟩
    exact Nat.le_antisymm hroom hle
  opened c hc := by
    obtain ⟨_, _, _, hfull, -, rfl⟩ := create_founds hc
    refine ⟨h.isLeast_nextId hmax hfull, h.search_eq_nextId hmax hfull,
      fun id => contains_insert rfl, fun id hne => ?_⟩
    dsimp only
    rw [Table.get?_insert, if_neg hne]

theorem frees_close (r : Registry) (id : GameId) : r.Frees id where
  told := by
    rw [close, contains, Table.contains]
    split
    · rename_i hroom
      rw [hroom, remove, hroom]
      rfl
    · rename_i hroom
      rw [hroom]
      rfl
  freed k := contains_erase (removes_remove r id).rooms
  kept k hne := by rw [(removes_remove r id).rooms, Table.get?_erase, if_neg hne]

theorem limit_remove (r : Registry) (id : GameId) : (r.remove id).maxGames = r.maxGames := by
  rw [remove]
  split <;> rfl

end Registry

namespace Desk

variable {d d' : Desk} {a : Act} {answer : Option Answer}

/-- What an act makes of the games: a call for a new game or for the removal of one does what it is
for, and nothing else touches the rooms. -/
inductive Houses (d : Desk) : Act → Registry → Prop where
  | created {now : Nat} {m : Message} {c : Registry.Created}
    (create : d.games.create now m = .ok c) : Houses d (.create now m) c.registry
  | removed {id : GameId} : Houses d (.remove id) (d.games.remove id)
  | kept {a : Act} {r : Registry} (limit : r.maxGames = d.games.maxGames)
    (rooms : r.rooms = d.games.rooms) : Houses d a r

theorem houses_act (h : d.act a = some (d', answer)) : d.Houses a d'.games := by
  cases a with
  | create now m =>
    obtain ⟨-, h⟩ := Option.ite_none_left_eq_some.1 h
    cases hc : d.games.create now m with
    | error e =>
      rw [hc] at h
      cases h
      exact .kept rfl rfl
    | ok c =>
      rw [hc] at h
      cases h
      exact .created hc
  | forward m =>
    obtain ⟨-, h⟩ := Option.ite_none_left_eq_some.1 h
    cases hf : d.games.find m with
    | error e | ok n =>
      rw [hf] at h
      cases h
      exact .kept rfl rfl
  | remove id =>
    obtain ⟨-, h⟩ := Option.ite_none_left_eq_some.1 h
    cases h
    exact .removed
  | deliver =>
    cases does_deliver h with
    | delivered | closed => exact .kept rfl rfl
  | cancel =>
    cases h
    exact .kept rfl rfl
  | play now n a =>
    obtain ⟨r, hr, he⟩ := Option.map_eq_some_iff.1 h
    cases he
    rw [Registry.act] at hr
    split at hr
    · cases hr
    · obtain ⟨result, -, rfl⟩ := Option.map_eq_some_iff.1 hr
      exact .kept rfl rfl

theorem Houses.rehouses {r : Registry} (h : d.Houses a r) : d.games.Rehouses r := by
  cases h with
  | created create =>
    obtain ⟨_, _, _, hfull, -, rfl⟩ := Registry.create_founds create
    exact .opened rfl hfull rfl
  | removed => exact .closed (Registry.limit_remove _ _) (Registry.removes_remove _ _).rooms
  | kept limit rooms => exact .kept limit rooms

/-- Whatever the games do, and whatever was called before: there are never too many games, their ids
are positive and within the limit on their number, and an id that is given up is used again before a
higher one. -/
theorem ids_lowest {r : Registry} (h : r.Unopened) (hmax : r.maxGames.toNat < UInt32.size - 1)
    {acts : List Act} (hrun : Desk.run { games := r } acts = some d) :
    d.games.maxGames = r.maxGames ∧ d.games.size ≤ r.maxGames.toNat ∧
    (∀ id, d.games.contains id → 0 < id ∧ id.toNat ≤ r.maxGames.toNat) ∧
    d.games.exhausted = false ∧
    (∀ now m, d.games.Allots now m) ∧ (∀ id, d.games.Frees id) ∧
    ∀ a d' answer, d.act a = some (d', answer) → d.Houses a d'.games := by
  obtain ⟨hlimit, hhoused⟩ := run_induction
    (P := fun _ d => d.games.maxGames = r.maxGames ∧ d.games.Housed) ⟨rfl, h.housed⟩
    (fun _ e _ e' _ _ ⟨hlimit, he⟩ ha => by
      have hr := (houses_act ha).rehouses
      exact ⟨hr.limit.trans hlimit, he.rehouses (hlimit ▸ hmax) hr⟩) hrun
  have hmax : d.games.maxGames.toNat < UInt32.size - 1 := hlimit ▸ hmax
  exact ⟨hlimit, hlimit ▸ hhoused.room, hlimit ▸ hhoused.ids, hhoused.not_exhausted hmax,
    hhoused.allots hmax, d.games.frees_close, fun _ _ _ => houses_act⟩

def asking (name : String) : Message :=
  { kind := .createGame, player := some name, grid := some ⟨9, 9⟩, rules := some .standard }

def turnover : List Act :=
  [.create 0 (asking "ann"), .deliver, .create 0 (asking "bob"), .deliver, .remove 1]

theorem ids_lowest_turnover : ∃ d c, Registry.Unopened { parlour with maxGames := 2 } ∧
    Desk.run { games := { parlour with maxGames := 2 } } turnover = some d ∧
    (d.games.close 1).1 = false ∧ (d.games.close 2).1 = true ∧
    d.games.create 0 (asking "ann") = .ok c ∧ c.id = 1 ∧
    IsLeast {id | 0 < id ∧ ¬ d.games.contains id} c.id ∧
    c.registry.create 0 (asking "ann") = .error (.atCapacity 2) := by
  have hrun : Desk.run { games := { parlour with maxGames := 2 } } turnover = some _ := rfl
  have hunopened : Registry.Unopened { parlour with maxGames := 2 } := ⟨rfl, rfl, rfl, rfl⟩
  obtain ⟨-, -, -, -, hallots, hfrees, -⟩ := ids_lowest hunopened (by decide) hrun
  refine ⟨_, _, hunopened, hrun, ?_, ?_, rfl, rfl, ((hallots 0 (asking "ann")).opened _ rfl).1, rfl⟩
  · rw [(hfrees 1).told]
    rfl
  · rw [(hfrees 2).told]
    rfl

end Desk

end TileRace
