import Mathlib.Algebra.BigOperators.Group.List.Basic
import Mathlib.Algebra.Group.End
import TileRace.Shuffle.Basic

namespace TileRace

namespace Stream

/-- The loop that draws a number below `bound` and goes on for as long as it takes: words are passed
over until the low half of a product is in the zone. -/
inductive Draws (bound : UInt32) : Nat → Stream → UInt32 → Stream → Prop where
  | taken {s : Stream} (low : UInt32.ofNat (s.draw.1.toNat * bound.toNat) ≤ zone bound) :
    Draws bound 0 s (UInt32.ofNat (s.draw.1.toNat * bound.toNat / UInt32.size)) s.draw.2
  | passed {k j} {s t : Stream} (low : ¬ UInt32.ofNat (s.draw.1.toNat * bound.toNat) ≤ zone bound)
    (rest : Draws bound k s.draw.2 j t) : Draws bound (k + 1) s j t

variable {bound j : UInt32} {k n tries : Nat} {s t : Stream}

theorem high_le (w bound : UInt32) :
    (UInt32.ofNat (w.toNat * bound.toNat / UInt32.size)).toNat ≤ bound.toNat - 1 := by
  have hw : w.toNat < UInt32.size := w.toNat_lt
  have hbound : bound.toNat < UInt32.size := bound.toNat_lt
  rcases Nat.eq_zero_or_pos bound.toNat with hzero | hpos
  · rw [hzero, Nat.mul_zero, Nat.zero_div]
    exact Nat.zero_le _
  · have hlt : w.toNat * bound.toNat / UInt32.size < bound.toNat := by
      apply Nat.div_lt_of_lt_mul
      exact Nat.mul_lt_mul_of_pos_right hw hpos
    rw [UInt32.toNat_ofNat_of_lt' (by omega)]
    omega

theorem drawBelow_le (bound : UInt32) (tries : Nat) (s : Stream) :
    (drawBelow bound tries s).1.toNat ≤ bound.toNat - 1 := by
  induction tries generalizing s with
  | zero => exact high_le s.draw.1 bound
  | succ tries ih =>
    rw [drawBelow]
    dsimp only
    split
    · exact high_le s.draw.1 bound
    · exact ih s.draw.2

theorem Draws.le (h : s.Draws bound k j t) : j.toNat ≤ bound.toNat - 1 := by
  induction h with
  | taken => exact high_le _ _
  | passed _ _ ih => exact ih

/-- With enough tries a number is drawn as by the loop without a limit. -/
theorem Draws.drawBelow_eq (h : s.Draws bound k j t) (hk : k ≤ tries) :
    drawBelow bound tries s = (j, t) := by
  induction h generalizing tries with
  | taken low =>
    cases tries with
    | zero => rfl
    | succ tries => exact if_pos low
  | passed low rest ih =>
    cases tries with
    | zero => omega
    | succ tries => exact (if_neg low).trans (ih (by omega))

theorem toNat_bound_le (n : Nat) : (UInt32.ofNat (n + 2)).toNat - 1 ≤ n + 1 := by
  have hle : (n + 2) % UInt32.size ≤ n + 2 := Nat.mod_le _ _
  rw [UInt32.toNat_ofNat']
  omega

theorem exchanges_le (n : Nat) (s : Stream) : ∀ x ∈ (exchanges n s).1, x.2 ≤ x.1 := by
  induction n generalizing s with
  | zero => simp [exchanges]
  | succ n ih =>
    rw [exchanges, List.forall_mem_cons]
    exact ⟨(drawBelow_le _ _ _).trans (toNat_bound_le n), ih _⟩

theorem exchanges_fst (n : Nat) (s : Stream) :
    (exchanges n s).1.map (·.1) = (List.range' 1 n).reverse := by
  induction n generalizing s with
  | zero => rfl
  | succ n ih =>
    rw [exchanges, List.map_cons, ih, List.range'_1_concat, List.reverse_append, Nat.add_comm]
    rfl

end Stream

/-- What decides how the lists of a game are shuffled: nothing, or the seed and the id of a game. -/
inductive ShuffleMode.Keyed : ShuffleMode → GameId → Option UInt64 → Prop where
  | identity (game) : Keyed .identity game none
  | seeded (seed game) : Keyed (.seeded seed) game (some (UInt64.ofNat (seed.toNat + game.toNat)))

namespace Shuffler

def ofKey : Option UInt64 → Shuffler
  | none => .identity
  | some key => .drawing (Stream.ofSeed key)

/-- A shuffler that has shuffled lists of these lengths. -/
def after (s : Shuffler) (lengths : List Nat) : Shuffler :=
  lengths.foldl (fun s n => (s.exchanges n).2) s

def shuffleAll : Shuffler → List (Σ α : Type, List α) → List (Σ α : Type, List α)
  | _, [] => []
  | s, ⟨α, items⟩ :: lists => ⟨α, (s.shuffle items).1⟩ :: (s.shuffle items).2.shuffleAll lists

/-- The positions that change places in a list of `n` items, when lists of these lengths were
shuffled before. -/
def drawn (key : Option UInt64) (before : List Nat) (n : Nat) : List (Nat × Nat) :=
  (((ofKey key).after before).exchanges n).1

def turn (n : Nat) (x : Nat × Nat) : Equiv.Perm (Fin n) :=
  if h : x.1 < n ∧ x.2 < n then Equiv.swap ⟨x.1, h.1⟩ ⟨x.2, h.2⟩ else 1

/-- The position from which the item at a position comes. -/
def order (key : Option UInt64) (before : List Nat) (n : Nat) : Equiv.Perm (Fin n) :=
  ((drawn key before n).map (turn n)).prod

variable {α : Type} {n : Nat}

/-- The items of a list, each position with the item from the position that `source` gives. -/
def arrange (items : List α) (source : Equiv.Perm (Fin items.length)) : List α :=
  List.ofFn fun k => items[source k]

theorem turn_apply (x : Nat × Nat) (k : Fin n) :
    (turn n x k).1 =
      if k.1 = x.1 ∧ x.2 < n then x.2 else if k.1 = x.2 ∧ x.1 < n then x.1 else k := by
  obtain ⟨i, j⟩ := x
  unfold turn
  split
  case isTrue h =>
    rw [Equiv.swap_apply_def]
    simp only [Fin.ext_iff, h.1, h.2, and_true]
    split_ifs <;> rfl
  case isFalse h =>
    have hk := k.2
    simp only [Equiv.Perm.coe_one, id_eq]
    split_ifs <;> omega

theorem getElem?_swap (a : Array α) (ha : a.size = n) (x : Nat × Nat) (k : Fin n) :
    (a.swapIfInBounds x.1 x.2)[k.1]? = a[(turn n x k).1]? := by
  have hk : k.1 < a.size := ha ▸ k.2
  have hto : (turn n x k).1 < a.size := ha ▸ (turn n x k).2
  rw [Array.getElem?_eq_getElem (by simpa using hk), Array.getElem?_eq_getElem hto,
    Array.getElem_swapIfInBounds]
  apply congrArg some
  simp only [turn_apply, ha]
  split_ifs <;> rfl

theorem getElem?_foldl_swap (xs : List (Nat × Nat)) (a : Array α) (ha : a.size = n) (k : Fin n) :
    (xs.foldl (fun a x => a.swapIfInBounds x.1 x.2) a)[k.1]? =
      a[((xs.map (turn n)).prod k).1]? := by
  induction xs generalizing a with
  | nil => rfl
  | cons x xs ih =>
    have hsize : (a.swapIfInBounds x.1 x.2).size = n := by rw [Array.size_swapIfInBounds, ha]
    rw [List.foldl_cons, ih _ hsize, getElem?_swap a ha]
    rfl

theorem size_foldl_swap (xs : List (Nat × Nat)) (a : Array α) :
    (xs.foldl (fun a x => a.swapIfInBounds x.1 x.2) a).size = a.size := by
  induction xs generalizing a with
  | nil => rfl
  | cons x xs ih => rw [List.foldl_cons, ih, Array.size_swapIfInBounds]

theorem exchange_eq (items : List α) (xs : List (Nat × Nat)) :
    exchange items xs = arrange items (xs.map (turn items.length)).prod := by
  have hlength : (exchange items xs).length = items.length := size_foldl_swap xs items.toArray
  apply List.ext_getElem?
  intro k
  by_cases hk : k < items.length
  · rw [arrange, List.getElem?_ofFn, dif_pos hk]
    have h := getElem?_foldl_swap xs items.toArray rfl ⟨k, hk⟩
    simp only [← Array.getElem?_toList] at h
    exact h.trans (List.getElem?_eq_getElem _)
  · rw [List.getElem?_eq_none (by omega), List.getElem?_eq_none (by simpa [arrange] using hk)]

theorem exchanges_le (s : Shuffler) (n : Nat) : ∀ x ∈ (s.exchanges n).1, x.2 ≤ x.1 ∧ x.1 < n := by
  intro x hx
  cases s with
  | identity => simp [exchanges] at hx
  | drawing s =>
    have hpos : x.1 ∈ (s.exchanges (n - 1)).1.map (·.1) := List.mem_map_of_mem hx
    rw [Stream.exchanges_fst] at hpos
    simp only [List.mem_reverse, List.mem_range'_1] at hpos
    exact ⟨Stream.exchanges_le _ _ x hx, by omega⟩

theorem getElem?_shuffleAll (lists : List (Σ α : Type, List α)) (s : Shuffler) (i : Nat)
    (items : List α) (h : lists[i]? = some ⟨α, items⟩) :
    (s.shuffleAll lists)[i]? = some ⟨α, exchange items
      ((s.after ((lists.take i).map (·.2.length))).exchanges items.length).1⟩ := by
  induction lists generalizing s i with
  | nil => simp at h
  | cons list lists ih =>
    cases i with
    | zero =>
      cases Option.some.inj h
      rfl
    | succ i => exact ih (s.shuffle list.2).2 i h

theorem length_shuffleAll (lists : List (Σ α : Type, List α)) (s : Shuffler) :
    (s.shuffleAll lists).length = lists.length := by
  induction lists generalizing s with
  | nil => rfl
  | cons list lists ih => exact congrArg (· + 1) (ih _)

theorem shuffleAll_identity (lists : List (Σ α : Type, List α)) :
    identity.shuffleAll lists = lists := by
  induction lists with
  | nil => rfl
  | cons list lists ih => exact congrArg (list :: ·) ih

theorem shuffler_eq_ofKey {mode : ShuffleMode} {game : GameId} {key : Option UInt64}
    (h : mode.Keyed game key) : mode.shuffler game = ofKey key := by
  cases h with
  | identity => rfl
  | seeded seed =>
    have hkey : seed + game.toUInt64 = UInt64.ofNat (seed.toNat + game.toNat) := by
      apply UInt64.toNat_inj.mp
      rw [UInt64.toNat_add, UInt64.toNat_ofNat', UInt32.toNat_toUInt64]
    exact congrArg (fun key => drawing (Stream.ofSeed key)) hkey

/-- Each list is rearranged by an order of its positions for which nothing but the key of the game
and the lengths so far are looked at. A position changes places with one up to it, also when the
drawing is not given up after a number of tries. -/
theorem shuffles_by_position {mode : ShuffleMode} {game : GameId} {key : Option UInt64}
    (h : mode.Keyed game key) (lists : List (Σ α : Type, List α)) :
    ((mode.shuffler game).shuffleAll lists).length = lists.length ∧
    (∀ (i : Nat) (α : Type) (items : List α), lists[i]? = some ⟨α, items⟩ →
      ((mode.shuffler game).shuffleAll lists)[i]? =
        some ⟨α, arrange items (order key ((lists.take i).map (·.2.length)) items.length)⟩) ∧
    (∀ before n, ∀ x ∈ drawn key before n, x.2 ≤ x.1 ∧ x.1 < n) ∧
    (∀ {i k j} {s t : Stream}, s.Draws (UInt32.ofNat (i + 2)) k j t →
      j.toNat ≤ i + 1 ∧ (k ≤ 1024 → s.drawBelow (UInt32.ofNat (i + 2)) 1024 = (j, t))) ∧
    (mode = .identity → (mode.shuffler game).shuffleAll lists = lists) := by
  refine ⟨length_shuffleAll lists _, ?_, ?_, ?_, ?_⟩
  · intro i α items hi
    rw [shuffler_eq_ofKey h, getElem?_shuffleAll lists (ofKey key) i items hi, exchange_eq]
    rfl
  · exact fun before n => exchanges_le _ n
  · intro i k j s t hdraws
    exact ⟨hdraws.le.trans (Stream.toNat_bound_le i), hdraws.drawBelow_eq⟩
  · rintro rfl
    exact shuffleAll_identity lists

theorem shuffles_by_position_seeded :
    drawn (some 10) [2] 3 = [(2, 1), (1, 0)] ∧
    (((ShuffleMode.seeded 7).shuffler 3).shuffleAll [⟨Char, ['a', 'b']⟩, ⟨Nat, [1, 2, 3]⟩])[1]? =
      some ⟨Nat, arrange [1, 2, 3] (order (some 10) [2] 3)⟩ :=
  ⟨by decide +kernel, (shuffles_by_position (.seeded 7 3) _).2.1 1 Nat [1, 2, 3] rfl⟩

end Shuffler

end TileRace
