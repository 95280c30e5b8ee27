import Mathlib.Data.List.Nodup
import TileRace.Board.Basic
import TileRace.Proofs.Table

namespace TileRace

namespace Placement

theorem insert_perm (before : Cell → Cell → Bool) (p : Placement) (ps : List Placement) :
    (insert before p ps).Perm (p :: ps) := by
  induction ps with
  | nil => exact .refl _
  | cons q ps ih =>
    simp only [insert]
    split
    · exact .refl _
    · exact (ih.cons q).trans (.swap p q ps)

theorem sort_perm (before : Cell → Cell → Bool) (ps : List Placement) :
    (sort before ps).Perm ps := by
  induction ps with
  | nil => exact .refl _
  | cons p ps ih => exact (insert_perm before p _).trans (ih.cons p)

end Placement

namespace Board

/-- The tables of a board agree: no tile is both in the hand and on the grid, each is filed under
its own id, and the columns show just what lies on the grid. -/
structure Coherent (b : Board) : Prop where
  order_nodup : b.order.Nodup
  mem_order : ∀ id, id ∈ b.order ↔ ∃ t, b.unused.get? id = some t
  unused_id : ∀ {id t}, b.unused.get? id = some t → t.id = id
  used_id : ∀ {id p}, b.used.get? id = some p → p.tile.id = id
  apart : ∀ {id t}, b.unused.get? id = some t → b.used.get? id = none
  tileAt_iff : ∀ c t, b.tileAt c = some t ↔
    ∃ p, b.used.get? t.id = some p ∧ p.tile = t ∧ p.cell = c
  columns : ∀ {x column}, b.index.get? x = some column → column.size ≠ 0

theorem Coherent.empty (g : Grid) : (Board.empty g).Coherent where
  order_nodup := .nil
  mem_order id := by simp [Board.empty]
  unused_id h := by cases h
  used_id h := by cases h
  apart h := by cases h
  tileAt_iff c t := by simp [Board.empty, tileAt]
  columns h := by cases h

variable {b : Board}

theorem Coherent.owned_id (hb : b.Coherent) {id : TileId} {t : Tile} (h : b.owned? id = some t) :
    t.id = id := by
  simp only [owned?] at h
  split at h
  · rename_i hu
    exact Option.some.inj h ▸ hb.unused_id hu
  · obtain ⟨p, hp, rfl⟩ := Option.map_eq_some_iff.1 h
    exact hb.used_id hp

theorem owned?_eq_none_iff {id : TileId} :
    b.owned? id = none ↔ b.unused.get? id = none ∧ b.used.get? id = none := by
  simp only [owned?]
  split <;> simp_all

theorem Coherent.mem_hand (hb : b.Coherent) {t : Tile} :
    t ∈ b.hand ↔ b.unused.get? t.id = some t := by
  rw [hand, List.mem_filterMap]
  refine ⟨?_, fun h => ⟨t.id, (hb.mem_order _).2 ⟨t, h⟩, h⟩⟩
  rintro ⟨id, -, h⟩
  rwa [hb.unused_id h]

theorem Coherent.unused_eq_some_iff (hb : b.Coherent) {id : TileId} {t : Tile} :
    b.unused.get? id = some t ↔ t ∈ b.hand ∧ t.id = id := by
  rw [hb.mem_hand]
  constructor
  · intro h
    have hid := hb.unused_id h
    exact ⟨hid.symm ▸ h, hid⟩
  · rintro ⟨h, rfl⟩
    exact h

theorem Coherent.unused_of_used (hb : b.Coherent) {id : TileId} {p : Placement}
    (h : b.used.get? id = some p) : b.unused.get? id = none := by
  refine Option.eq_none_iff_forall_ne_some.2 fun t ht => ?_
  cases (hb.apart ht).symm.trans h

theorem placed_perm (b : Board) : b.placed.Perm b.used.values := Placement.sort_perm _ _

theorem length_placed (b : Board) : b.placed.length = b.used.size := by
  rw [b.placed_perm.length_eq, Table.values, List.length_map, Table.size]

theorem Coherent.mem_placed (hb : b.Coherent) {p : Placement} :
    p ∈ b.placed ↔ b.used.get? p.tile.id = some p := by
  rw [b.placed_perm.mem_iff, Table.mem_values]
  refine ⟨?_, fun h => ⟨_, h⟩⟩
  rintro ⟨id, h⟩
  rwa [hb.used_id h]

theorem Coherent.tileAt_of_mem (hb : b.Coherent) {p : Placement} (h : p ∈ b.placed) :
    b.tileAt p.cell = some p.tile :=
  (hb.tileAt_iff _ _).2 ⟨p, hb.mem_placed.1 h, rfl, rfl⟩

theorem Coherent.mem_of_tileAt (hb : b.Coherent) {c : Cell} {t : Tile} (h : b.tileAt c = some t) :
    ∃ p ∈ b.placed, p.tile = t ∧ p.cell = c := by
  obtain ⟨p, hp, rfl, rfl⟩ := (hb.tileAt_iff _ _).1 h
  exact ⟨p, hb.mem_placed.2 hp, rfl, rfl⟩

theorem Coherent.eq_of_id_eq (hb : b.Coherent) {p q : Placement} (hp : p ∈ b.placed)
    (hq : q ∈ b.placed) (h : p.tile.id = q.tile.id) : p = q := by
  have hu := hb.mem_placed.1 hp
  rw [h, hb.mem_placed.1 hq] at hu
  exact (Option.some.inj hu).symm

theorem Coherent.eq_of_cell_eq (hb : b.Coherent) {p q : Placement} (hp : p ∈ b.placed)
    (hq : q ∈ b.placed) (h : p.cell = q.cell) : p = q := by
  have ht : p.tile = q.tile :=
    Option.some.inj ((hb.tileAt_of_mem hp).symm.trans (h ▸ hb.tileAt_of_mem hq))
  exact hb.eq_of_id_eq hp hq (congrArg Tile.id ht)

theorem Coherent.hand_eq_nil_iff (hb : b.Coherent) : b.hand = [] ↔ b.unused.size = 0 := by
  rw [Table.size_eq_zero_iff, List.eq_nil_iff_forall_not_mem]
  constructor
  · intro h id
    refine Option.eq_none_iff_forall_ne_some.2 fun t ht => h t (hb.mem_hand.2 ?_)
    rwa [hb.unused_id ht]
  · intro h t ht
    rw [hb.mem_hand, h] at ht
    cases ht

theorem tileAt_vacate (b : Board) (c d : Cell) :
    (b.vacate c).tileAt d = if d = c then none else b.tileAt d := by
  obtain ⟨x, y⟩ := c
  obtain ⟨x', y'⟩ := d
  simp only [vacate, tileAt, Cell.mk.injEq]
  cases hc : b.index.get? x with
  | none => by_cases hx : x' = x <;> simp [hx, hc]
  | some column =>
    simp only
    by_cases hx : x' = x
    · subst hx
      split
      · rename_i hs
        have he := Table.size_eq_zero_iff.1 hs y'
        rw [Table.get?_erase] at he
        simp only [Table.get?_erase, hc, Option.bind_some, true_and]
        by_cases hy : y' = y <;> simp_all
      · simp [Table.get?_insert, Table.get?_erase, hc]
    · split <;> simp [Table.get?_insert, Table.get?_erase, hx]

theorem columns_vacate (h : ∀ {x column}, b.index.get? x = some column → column.size ≠ 0) (c : Cell)
    {x : Int} {column : Table Int Tile} (hx : (b.vacate c).index.get? x = some column) :
    column.size ≠ 0 := by
  simp only [vacate] at hx
  split at hx
  · exact h hx
  · simp only at hx
    split at hx
    · rw [Table.get?_erase] at hx
      split at hx
      · cases hx
      · exact h hx
    · rename_i hs
      rw [Table.get?_insert] at hx
      split at hx
      · exact Option.some.inj hx ▸ hs
      · exact h hx

theorem tileAt_place (b : Board) (p : Placement) (c : Cell) :
    (b.place p).tileAt c = if c = p.cell then some p.tile else b.tileAt c := by
  obtain ⟨x, y⟩ := c
  simp only [place, tileAt, Table.get?_insert, Cell.ext_iff]
  by_cases hx : x = p.cell.x
  · subst hx
    cases b.index.get? p.cell.x <;> simp [Table.get?_insert]
  · simp [hx]

theorem columns_place (h : ∀ {x column}, b.index.get? x = some column → column.size ≠ 0)
    (p : Placement) {x : Int} {column : Table Int Tile}
    (hx : (b.place p).index.get? x = some column) : column.size ≠ 0 := by
  simp only [place, Table.get?_insert] at hx
  split at hx
  · obtain rfl := Option.some.inj hx
    rw [Ne, Table.size_eq_zero_iff]
    intro hn
    have hy := hn p.cell.y
    simp [Table.get?_insert] at hy
  · exact h hx

theorem take_fst (b : Board) (id : TileId) : (b.take id).1 = b.owned? id := by
  simp only [take, owned?]
  split
  · rfl
  · split <;> simp_all

theorem take_of_none {id : TileId} (h : b.owned? id = none) : (b.take id).2 = b := by
  obtain ⟨hu, hp⟩ := owned?_eq_none_iff.1 h
  simp [take, hu, hp]

@[simp] theorem vacate_unused (b : Board) (c : Cell) : (b.vacate c).unused = b.unused := by
  simp only [vacate]
  split <;> rfl

@[simp] theorem vacate_order (b : Board) (c : Cell) : (b.vacate c).order = b.order := by
  simp only [vacate]
  split <;> rfl

@[simp] theorem vacate_used (b : Board) (c : Cell) : (b.vacate c).used = b.used := by
  simp only [vacate]
  split <;> rfl

theorem unused_take (b : Board) (id x : TileId) :
    (b.take id).2.unused.get? x = if x = id then none else b.unused.get? x := by
  simp only [take]
  split
  · exact Table.get?_erase _ _ _
  · rename_i hu
    split <;> simp only [vacate_unused] <;> split <;> simp_all

theorem Coherent.used_take (hb : b.Coherent) (id x : TileId) :
    (b.take id).2.used.get? x = if x = id then none else b.used.get? x := by
  simp only [take]
  split
  · rename_i hu
    have hp := hb.apart hu
    split <;> simp_all
  · split
    · rw [vacate_used, Table.get?_erase]
    · split <;> simp_all

theorem Coherent.order_take (hb : b.Coherent) (id : TileId) :
    (b.take id).2.order = b.order.filter (· ≠ id) := by
  simp only [take]
  split
  · rfl
  · rename_i hu
    have hn : id ∉ b.order := by simp [hb.mem_order, hu]
    have hf : b.order.filter (· ≠ id) = b.order := by
      refine List.filter_eq_self.2 fun x hx => ?_
      simpa using fun he : x = id => hn (he ▸ hx)
    split <;> simp only [vacate_order, hf]

theorem Coherent.tileAt_take (hb : b.Coherent) (id : TileId) (c : Cell) :
    (b.take id).2.tileAt c = (b.tileAt c).filter (·.id ≠ id) := by
  have hkeep : (∀ t, b.tileAt c = some t → t.id ≠ id) →
      (b.tileAt c).filter (·.id ≠ id) = b.tileAt c := by
    intro h
    cases ht : b.tileAt c with
    | none => rfl
    | some t => simp [h t ht]
  simp only [take]
  split
  · rename_i hu
    refine (hkeep fun t ht he => ?_).symm
    obtain ⟨p, hp, -⟩ := (hb.tileAt_iff c t).1 ht
    rw [he, hb.apart hu] at hp
    cases hp
  · split
    · rename_i p hp
      rw [tileAt_vacate]
      split
      · rename_i hc
        have ht : b.tileAt c = some p.tile :=
          (hb.tileAt_iff _ _).2 ⟨p, by rwa [hb.used_id hp], rfl, hc.symm⟩
        rw [ht, Option.filter_some, if_neg (by simp [hb.used_id hp])]
      · rename_i hc
        refine (hkeep fun t ht he => hc ?_).symm
        obtain ⟨q, hq, -, rfl⟩ := (hb.tileAt_iff c t).1 ht
        rw [he, hp] at hq
        rw [Option.some.inj hq]
    · rename_i hp
      refine (hkeep fun t ht he => ?_).symm
      obtain ⟨q, hq, -⟩ := (hb.tileAt_iff c t).1 ht
      rw [he, hp] at hq
      cases hq

theorem columns_take (h : ∀ {x column}, b.index.get? x = some column → column.size ≠ 0)
    (id : TileId) {x : Int} {column : Table Int Tile}
    (hx : (b.take id).2.index.get? x = some column) : column.size ≠ 0 := by
  simp only [take] at hx
  split at hx
  · exact h hx
  · split at hx
    · rename_i p _
      exact columns_vacate (b := { b with used := b.used.erase id }) h p.cell hx
    · exact h hx

theorem Coherent.take (hb : b.Coherent) (id : TileId) : (b.take id).2.Coherent where
  order_nodup := hb.order_take id ▸ hb.order_nodup.filter _
  mem_order x := by
    rw [hb.order_take, unused_take, List.mem_filter, hb.mem_order]
    split <;> simp_all
  unused_id h := by
    rw [unused_take] at h
    split at h
    · cases h
    · exact hb.unused_id h
  used_id h := by
    rw [hb.used_take] at h
    split at h
    · cases h
    · exact hb.used_id h
  apart h := by
    rw [unused_take] at h
    rw [hb.used_take]
    split at h
    · cases h
    · rename_i hx
      rw [if_neg hx, hb.apart h]
  tileAt_iff c t := by
    rw [hb.tileAt_take, hb.used_take, Option.filter_eq_some_iff, hb.tileAt_iff]
    by_cases ht : t.id = id <;> simp [ht]
  columns := columns_take hb.columns id

theorem Coherent.owned?_take (hb : b.Coherent) (id x : TileId) :
    (b.take id).2.owned? x = if x = id then none else b.owned? x := by
  simp only [owned?, unused_take, hb.used_take]
  by_cases hx : x = id <;> simp [hx]

theorem owned?_hold (b : Board) (t : Tile) (x : TileId) :
    (b.hold t).owned? x = if x = t.id then some t else b.owned? x := by
  simp only [owned?, hold, Table.get?_insert]
  by_cases hx : x = t.id <;> simp [hx]

theorem Coherent.hold (hb : b.Coherent) {t : Tile} (ht : b.owned? t.id = none) :
    (b.hold t).Coherent where
  order_nodup := by
    have hn : t.id ∉ b.order := by simp [hb.mem_order, (owned?_eq_none_iff.1 ht).1]
    refine List.nodup_append.2 ⟨hb.order_nodup, by simp, fun x hx y hy he => hn ?_⟩
    rwa [← List.mem_singleton.1 hy, ← he]
  mem_order x := by
    simp only [Board.hold, List.mem_append, List.mem_singleton, Table.get?_insert, hb.mem_order]
    by_cases hx : x = t.id <;> simp [hx]
  unused_id h := by
    simp only [Board.hold, Table.get?_insert] at h
    split at h
    · simp_all
    · exact hb.unused_id h
  used_id h := hb.used_id h
  apart h := by
    simp only [Board.hold, Table.get?_insert] at h
    split at h
    · rename_i hx
      exact hx ▸ (owned?_eq_none_iff.1 ht).2
    · exact hb.apart h
  tileAt_iff := hb.tileAt_iff
  columns := hb.columns

theorem Coherent.hand_hold (hb : b.Coherent) {t : Tile} (ht : b.owned? t.id = none) :
    (b.hold t).hand = b.hand ++ [t] := by
  have hn : ∀ x ∈ b.order, (b.unused.insert t.id t).get? x = b.unused.get? x := by
    intro x hx
    obtain ⟨u, hu⟩ := (hb.mem_order x).1 hx
    rw [Table.get?_insert, if_neg]
    rintro rfl
    rw [(owned?_eq_none_iff.1 ht).1] at hu
    cases hu
  simp only [hand, Board.hold, List.filterMap_append, List.filterMap_congr hn]
  simp [Table.get?_insert]

theorem owned?_place {p : Placement} (h : b.owned? p.tile.id = none) (x : TileId) :
    (b.place p).owned? x = if x = p.tile.id then some p.tile else b.owned? x := by
  simp only [owned?, place, Table.get?_insert]
  by_cases hx : x = p.tile.id
  · simp [hx, (owned?_eq_none_iff.1 h).1]
  · simp [hx]

theorem Coherent.place (hb : b.Coherent) {p : Placement} (hp : b.owned? p.tile.id = none)
    (hc : b.tileAt p.cell = none) : (b.place p).Coherent where
  order_nodup := hb.order_nodup
  mem_order := hb.mem_order
  unused_id h := hb.unused_id h
  used_id h := by
    simp only [Board.place, Table.get?_insert] at h
    split at h
    · simp_all
    · exact hb.used_id h
  apart h := by
    simp only [Board.place, Table.get?_insert]
    split
    · rename_i hx
      subst hx
      change b.unused.get? _ = _ at h
      rw [(owned?_eq_none_iff.1 hp).1] at h
      cases h
    · exact hb.apart h
  tileAt_iff c t := by
    rw [tileAt_place]
    simp only [Board.place, Table.get?_insert]
    by_cases ht : t.id = p.tile.id
    · have hn : b.tileAt c ≠ some t := fun h => by
        obtain ⟨q, hq, -⟩ := (hb.tileAt_iff c t).1 h
        rw [ht, (owned?_eq_none_iff.1 hp).2] at hq
        cases hq
      by_cases hd : c = p.cell <;> simp [ht, hd, hn, eq_comm]
    · have hn : p.tile ≠ t := fun h => ht (h ▸ rfl)
      by_cases hd : c = p.cell
      · have hq := hb.tileAt_iff p.cell t
        simp_all
      · simp [ht, hd, hb.tileAt_iff]
  columns := columns_place hb.columns p

/-- All tiles of a player. -/
def tiles (b : Board) : List Tile := b.hand ++ b.placed.map (·.tile)

theorem Coherent.mem_tiles (hb : b.Coherent) {t : Tile} :
    t ∈ b.tiles ↔ b.owned? t.id = some t := by
  rw [tiles, List.mem_append, hb.mem_hand, List.mem_map, owned?]
  have hplaced : (∃ p ∈ b.placed, p.tile = t) ↔ ∃ p, b.used.get? t.id = some p ∧ p.tile = t := by
    refine ⟨?_, ?_⟩
    · rintro ⟨p, hp, rfl⟩
      exact ⟨p, hb.mem_placed.1 hp, rfl⟩
    · rintro ⟨p, hp, rfl⟩
      exact ⟨p, hb.mem_placed.2 hp, rfl⟩
  rw [hplaced]
  cases hu : b.unused.get? t.id with
  | none => simp
  | some u => simp [hb.apart hu]

theorem Coherent.hand_ids (hb : b.Coherent) : b.hand.map (·.id) = b.order := by
  have h : ∀ l : List TileId, (∀ id ∈ l, ∃ t, b.unused.get? id = some t) →
      (l.filterMap b.unused.get?).map (·.id) = l := by
    intro l hl
    induction l with
    | nil => rfl
    | cons id l ih =>
      obtain ⟨t, ht⟩ := hl id List.mem_cons_self
      rw [List.filterMap_cons_some ht, List.map_cons, hb.unused_id ht,
        ih fun x hx => hl x (List.mem_cons_of_mem _ hx)]
  exact h b.order fun id hid => (hb.mem_order id).1 hid

theorem Coherent.placed_ids_perm (hb : b.Coherent) :
    (b.placed.map (·.tile.id)).Perm b.used.keys := by
  refine (b.placed_perm.map _).trans (.of_eq ?_)
  rw [Table.values, List.map_map, Table.keys]
  refine List.map_congr_left fun e he => ?_
  exact hb.used_id (Table.get?_eq_some_iff.2 he)

theorem Coherent.used_eq_none_iff (hb : b.Coherent) {id : TileId} :
    b.used.get? id = none ↔ id ∉ b.placed.map (·.tile.id) := by
  rw [hb.placed_ids_perm.mem_iff, Table.not_mem_keys]

theorem Coherent.placed_ids_nodup (hb : b.Coherent) : (b.placed.map (·.tile.id)).Nodup :=
  hb.placed_ids_perm.nodup_iff.2 b.used.keys_nodup

theorem Coherent.tiles_ids_nodup (hb : b.Coherent) : (b.tiles.map (·.id)).Nodup := by
  rw [tiles, List.map_append, List.map_map, hb.hand_ids]
  refine List.nodup_append.2 ⟨hb.order_nodup, hb.placed_ids_nodup, fun x hx y hy he => ?_⟩
  obtain ⟨t, ht⟩ := (hb.mem_order x).1 hx
  obtain ⟨p, hp, rfl⟩ := List.mem_map.1 hy
  have hu := hb.mem_placed.1 hp
  change x = p.tile.id at he
  rw [← he, hb.apart ht] at hu
  cases hu

theorem Coherent.tiles_nodup (hb : b.Coherent) : b.tiles.Nodup :=
  List.Nodup.of_map _ hb.tiles_ids_nodup

theorem Coherent.not_mem_ids (hb : b.Coherent) {id : TileId} (h : id ∉ b.tiles.map (·.id)) :
    b.owned? id = none := by
  cases ho : b.owned? id with
  | none => rfl
  | some t =>
    have ht := hb.owned_id ho
    exact (h (List.mem_map.2 ⟨t, hb.mem_tiles.2 (ht.symm ▸ ho), ht⟩)).elim

variable {c : Board}

theorem Coherent.tiles_perm (hb : b.Coherent) (hc : c.Coherent)
    (h : ∀ x, c.owned? x = b.owned? x) : c.tiles.Perm b.tiles :=
  (List.perm_ext_iff_of_nodup hc.tiles_nodup hb.tiles_nodup).2 fun t => by
    rw [hc.mem_tiles, hb.mem_tiles, h]

theorem Coherent.tiles_perm_cons (hb : b.Coherent) (hc : c.Coherent) {t : Tile}
    (ht : b.owned? t.id = none)
    (h : ∀ x, c.owned? x = if x = t.id then some t else b.owned? x) :
    c.tiles.Perm (t :: b.tiles) := by
  have hn : t ∉ b.tiles := fun hm => by
    rw [hb.mem_tiles, ht] at hm
    cases hm
  refine (List.perm_ext_iff_of_nodup hc.tiles_nodup
    (List.nodup_cons.2 ⟨hn, hb.tiles_nodup⟩)).2 fun u => ?_
  rw [hc.mem_tiles, List.mem_cons, hb.mem_tiles, h]
  by_cases hu : u.id = t.id
  · rw [if_pos hu, hu, ht]
    simp only [Option.some.injEq, reduceCtorEq, or_false]
    exact eq_comm
  · have hx : u ≠ t := fun he => hu (he ▸ rfl)
    rw [if_neg hu, or_iff_right hx]

theorem add_eq_ok_iff {t : Tile} :
    b.add t = .ok c ↔ b.owned? t.id = none ∧ c = b.hold t := by
  rw [add]
  cases b.owned? t.id with
  | none => simp [eq_comm]
  | some o => simp

theorem Coherent.of_add (hb : b.Coherent) {t : Tile} (h : b.add t = .ok c) : c.Coherent := by
  obtain ⟨ht, rfl⟩ := add_eq_ok_iff.1 h
  exact hb.hold ht

theorem Coherent.check_eq_ok_iff (hb : b.Coherent) {t : Tile} :
    b.check t = .ok () ↔ b.owned? t.id = some t := by
  rw [check]
  cases ho : b.owned? t.id with
  | none => simp
  | some o =>
    have hid := hb.owned_id ho
    simp only [Option.some.injEq]
    split
    · rename_i hl
      simp [Tile.ext_iff, hid, hl]
    · rename_i hl
      simp [Tile.ext_iff, hl]

theorem Coherent.remove_eq_ok_iff (hb : b.Coherent) {t : Tile} :
    b.remove t = .ok c ↔ b.owned? t.id = some t ∧ c = (b.take t.id).2 := by
  rw [← hb.check_eq_ok_iff, remove]
  cases b.check t with
  | error e => simp [bind, Except.bind]
  | ok u => simp [bind, Except.bind, pure, Except.pure, eq_comm]

theorem Coherent.of_remove (hb : b.Coherent) {t : Tile} (h : b.remove t = .ok c) : c.Coherent := by
  obtain ⟨-, rfl⟩ := hb.remove_eq_ok_iff.1 h
  exact hb.take t.id

theorem Coherent.remove_perm (hb : b.Coherent) {t : Tile} (h : b.remove t = .ok c) :
    b.tiles.Perm (t :: c.tiles) := by
  obtain ⟨ho, rfl⟩ := hb.remove_eq_ok_iff.1 h
  refine (hb.take t.id).tiles_perm_cons hb (by simp [hb.owned?_take]) fun x => ?_
  rw [hb.owned?_take]
  split
  · rename_i hx
    rw [hx, ho]
  · rfl

theorem Coherent.hold_perm (hb : b.Coherent) {t : Tile} (ht : b.owned? t.id = none) :
    (b.hold t).tiles.Perm (t :: b.tiles) :=
  hb.tiles_perm_cons (hb.hold ht) ht (owned?_hold b t)

end Board

end TileRace
