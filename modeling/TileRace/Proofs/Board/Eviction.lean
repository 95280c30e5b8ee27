import TileRace.Proofs.Board.Order
import TileRace.Proofs.Board.Relocation

namespace TileRace

namespace Placement

variable {ps : List Placement}

def RowSorted (ps : List Placement) : Prop := ps.Pairwise fun p q => p.cell.rowBefore q.cell

theorem rowSorted_sort (h : (ps.map (·.cell)).Nodup) : RowSorted (sort Cell.rowBefore ps) :=
  sorted_sort .across h

theorem RowSorted.sorted (h : RowSorted ps) : Sorted .across ps := h

end Placement

namespace Board

variable {b c : Board} {ps vs : List Placement} {p : Placement} {g : Grid}

theorem grid_evict (b : Board) (ps : List Placement) : (b.evict ps).2.grid = b.grid := by
  induction ps generalizing b with
  | nil => rfl
  | cons p ps ih =>
    have htake := b.grid_take p.tile.id
    simp only [evict]
    split
    · rename_i t c h
      rw [h] at htake
      exact (ih (c.hold t)).trans htake
    · rename_i c h
      rw [h] at htake
      exact (ih c).trans htake

@[simp] theorem grid_resize (b : Board) (g : Grid) : (b.resize g).1.grid = g := grid_evict _ _

theorem Coherent.used_evict (hb : b.Coherent) (ps : List Placement) (x : TileId) :
    (b.evict ps).2.used.get? x = if x ∈ ps.map (·.tile.id) then none else b.used.get? x := by
  induction ps generalizing b with
  | nil => rfl
  | cons p ps ih =>
    have hc := hb.take p.tile.id
    have hused := hb.used_take p.tile.id x
    have hfst := b.take_fst p.tile.id
    have hfree := hb.owned?_take p.tile.id p.tile.id
    have hrest : (if x ∈ ps.map (·.tile.id) then none else (b.take p.tile.id).2.used.get? x) =
        if x ∈ (p :: ps).map (·.tile.id) then none else b.used.get? x := by
      rw [hused]
      by_cases hx : x = p.tile.id <;> simp [hx]
    simp only [Board.evict]
    split
    · rename_i t c h
      rw [h] at hc hfst hfree hrest
      have hn : c.owned? t.id = none := by rw [hb.owned_id hfst.symm, hfree, if_pos rfl]
      exact (ih (hc.hold hn)).trans hrest
    · rename_i c h
      rw [h] at hc hrest
      exact (ih hc).trans hrest

theorem Coherent.placed_cells_nodup (hb : b.Coherent) : (b.placed.map (·.cell)).Nodup := by
  refine List.Nodup.map_on (fun p hp q hq h => hb.eq_of_cell_eq hp hq h) ?_
  exact List.Nodup.of_map _ hb.placed_ids_nodup

theorem Coherent.rowSorted_placed (hb : b.Coherent) : Placement.RowSorted b.placed :=
  Placement.rowSorted_sort ((b.placed_perm.map _).nodup_iff.1 hb.placed_cells_nodup)

theorem Coherent.sort_eq_placed (hb : b.Coherent) (hvs : vs.Perm b.used.values) :
    Placement.sort Cell.rowBefore vs = b.placed :=
  Placement.sort_eq_of_perm .across ((b.placed_perm.map _).nodup_iff.1 hb.placed_cells_nodup) hvs

theorem Coherent.placed_nodup (hb : b.Coherent) : b.placed.Nodup :=
  List.Nodup.of_map _ hb.placed_ids_nodup

theorem Coherent.placed_eq (hb : b.Coherent) (hps : Placement.RowSorted ps)
    (h : ∀ p, p ∈ ps ↔ b.used.get? p.tile.id = some p) : b.placed = ps := by
  exact hb.rowSorted_placed.sorted.eq_of_perm hps.sorted
    ((List.perm_ext_iff_of_nodup hb.placed_nodup hps.sorted.nodup).2 fun p =>
      hb.mem_placed.trans (h p).symm)

def outside (b : Board) (g : Grid) : List Placement :=
  Placement.sort Cell.rowBefore (b.used.values.filter fun p => !g.contains p.cell)

theorem resize_eq (b : Board) (g : Grid) :
    b.resize g = ((({ b with grid := g } : Board).evict (b.outside g)).2,
      (({ b with grid := g } : Board).evict (b.outside g)).1) := rfl

theorem mem_outside : p ∈ b.outside g ↔ p ∈ b.placed ∧ ¬ g.contains p.cell := by
  rw [outside, (Placement.sort_perm _ _).mem_iff, List.mem_filter, ← b.placed_perm.mem_iff,
    Bool.not_eq_true', Bool.not_eq_true]

theorem Coherent.placed_resize (hb : b.Coherent) (g : Grid) :
    (b.resize g).1.placed = b.placed.filter (g.contains ·.cell) := by
  have hg : Coherent { b with grid := g } := { hb with }
  refine (hb.resize g).placed_eq (hb.rowSorted_placed.filter _) fun p => ?_
  rw [List.mem_filter, hb.mem_placed, resize_eq, hg.used_evict]
  have hout : p.tile.id ∈ (b.outside g).map (·.tile.id) ↔
      ∃ q, b.used.get? p.tile.id = some q ∧ ¬ g.contains q.cell := by
    simp only [List.mem_map, mem_outside, hb.mem_placed]
    constructor
    · rintro ⟨q, ⟨hq, hn⟩, hid⟩
      exact ⟨q, hid ▸ hq, hn⟩
    · rintro ⟨q, hq, hn⟩
      have hid := hb.used_id hq
      exact ⟨q, ⟨hid.symm ▸ hq, hn⟩, hid⟩
  by_cases hp : b.used.get? p.tile.id = some p
  · by_cases hin : g.contains p.cell
    · rw [if_neg (mt hout.1 (by simp [hp, hin])), hp]
      simp [hin]
    · rw [if_pos (hout.2 ⟨p, hp, hin⟩)]
      simp [hin]
  · refine iff_of_false (fun h => hp h.1) fun h => hp ?_
    split at h
    · cases h
    · exact h

def Inside (b : Board) : Prop := ∀ p ∈ b.placed, b.grid.contains p.cell

theorem Inside.add {t : Tile} (hb : b.Inside) (h : b.add t = .ok c) : c.Inside := by
  obtain ⟨-, rfl⟩ := add_eq_ok_iff.1 h
  exact hb

theorem Coherent.inside_take (hb : b.Coherent) (hin : b.Inside) (id : TileId) :
    (b.take id).2.Inside := by
  intro p hp
  rw [(hb.take id).mem_placed, hb.used_take] at hp
  rw [grid_take]
  split at hp
  · cases hp
  · exact hin p (hb.mem_placed.2 hp)

theorem Coherent.inside_move (hb : b.Coherent) (hin : b.Inside) (h : b.move ps = .ok c) :
    c.Inside := by
  have hr := hb.relocates_move h
  intro p hp
  rw [(hb.move h).mem_placed] at hp
  rw [hr.grid]
  by_cases hid : p.tile.id ∈ ps.map (·.tile.id)
  · obtain ⟨q, hq, he⟩ := List.mem_map.1 hid
    obtain ⟨hused, -⟩ := hr.moved q hq
    rw [he, hp] at hused
    exact Option.some.inj hused ▸ (hb.move_eq_ok_iff.1 h).1.inside q hq
  · rw [(hr.others _ hid).1] at hp
    exact hin p (hb.mem_placed.2 hp)

theorem Coherent.inside_resize (hb : b.Coherent) (g : Grid) : (b.resize g).1.Inside := by
  intro p hp
  rw [hb.placed_resize] at hp
  rw [grid_resize]
  exact (List.mem_filter.1 hp).2

end Board

end TileRace
