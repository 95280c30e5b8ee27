import TileRace.Proofs.Board.Calls

namespace TileRace

/-- The placement lies within a grid. -/
def Placement.Fits (p : Placement) (g : Grid) : Prop :=
  (0 ≤ p.x.toInt ∧ p.x.toInt < g.columns.toNat) ∧ 0 ≤ p.y.toInt ∧ p.y.toInt < g.rows.toNat

theorem Placement.contains_iff {p : Placement} {g : Grid} : g.contains p.cell ↔ p.Fits g := by
  simp only [Grid.contains, Bool.and_eq_true, decide_eq_true_eq]
  constructor
  · rintro ⟨⟨⟨hx, hy⟩, hx'⟩, hy'⟩
    exact ⟨⟨hx, hx'⟩, hy, hy'⟩
  · rintro ⟨⟨hx, hx'⟩, hy, hy'⟩
    exact ⟨⟨⟨hx, hy⟩, hx'⟩, hy'⟩

namespace Board

def Edit.resizeFrom (vs : List Placement) (g : Grid) : Edit (List Tile) := do
  modify ({ · with grid := g })
  evict (Placement.sort Cell.rowBefore (vs.filter fun p => !g.contains p.cell))

/-- `c` is `b` on another grid: what fits stays where it is, and the other tiles are moved to the end
of the hand, row by row. -/
structure Resizes (b : Board) (g : Grid) (c : Board) (moved : List Tile) : Prop where
  grid : c.grid = g
  stays : ∀ p, p ∈ c.placed ↔ p ∈ b.placed ∧ p.Fits g
  goes : ∃ ps, Placement.RowSorted ps ∧ (∀ p, p ∈ ps ↔ p ∈ b.placed ∧ ¬ p.Fits g) ∧
    moved = ps.map (·.tile)
  order : c.order = b.order ++ moved.map (·.id)
  hand : c.hand = b.hand ++ moved

variable {b : Board} {g : Grid} {p : Placement} {ps vs : List Placement}

theorem take_placed {id : TileId} (hu : b.unused.get? id = none) :
    (b.take id).2.unused = b.unused ∧ (b.take id).2.order = b.order := by
  simp only [take, hu]
  split
  · exact ⟨vacate_unused _ _, vacate_order _ _⟩
  · exact ⟨rfl, rfl⟩

theorem Coherent.evict_cons (hb : b.Coherent) (hp : b.used.get? p.tile.id = some p)
    (ps : List Placement) : ∃ c : Board, c.Coherent ∧ c.hand = b.hand ++ [p.tile] ∧
      c.order = b.order ++ [p.tile.id] ∧
      (∀ id, id ≠ p.tile.id → c.used.get? id = b.used.get? id) ∧
      b.evict (p :: ps) = (p.tile :: (c.evict ps).1, (c.evict ps).2) := by
  have hu := hb.unused_of_used hp
  have howned : b.owned? p.tile.id = some p.tile := by rw [owned?, hu, hp, Option.map_some]
  have htake : b.take p.tile.id = (some p.tile, (b.take p.tile.id).2) :=
    Prod.ext ((b.take_fst _).trans howned) rfl
  have hfree : (b.take p.tile.id).2.owned? p.tile.id = none := by rw [hb.owned?_take, if_pos rfl]
  obtain ⟨hunused, horder⟩ := take_placed hu
  refine ⟨(b.take p.tile.id).2.hold p.tile, (hb.take _).hold hfree, ?_, ?_, fun id hid => ?_, ?_⟩
  · rw [(hb.take _).hand_hold hfree, Board.hand, hunused, horder]
    rfl
  · rw [Board.hold, horder]
  · exact (hb.used_take _ _).trans (if_neg hid)
  · rw [Board.evict, htake]

theorem Coherent.evict_eq (hb : b.Coherent) (hids : (ps.map (·.tile.id)).Nodup)
    (hps : ∀ p ∈ ps, b.used.get? p.tile.id = some p) : (b.evict ps).1 = ps.map (·.tile) ∧
      (b.evict ps).2.order = b.order ++ ps.map (·.tile.id) ∧
      (b.evict ps).2.hand = b.hand ++ ps.map (·.tile) := by
  induction ps generalizing b with
  | nil => exact ⟨rfl, (List.append_nil _).symm, (List.append_nil _).symm⟩
  | cons p ps ih =>
    obtain ⟨hid, hids⟩ := List.nodup_cons.1 hids
    obtain ⟨c, hc, hhand, horder, hused, he⟩ := hb.evict_cons (hps p List.mem_cons_self) ps
    have hrest : ∀ q ∈ ps, c.used.get? q.tile.id = some q := by
      intro q hq
      rw [hused _ fun h => hid (List.mem_map.2 ⟨q, hq, h⟩)]
      exact hps q (List.mem_cons_of_mem p hq)
    obtain ⟨hmoved, horder', hhand'⟩ := ih hc hids hrest
    rw [he]
    refine ⟨congrArg _ hmoved, ?_, ?_⟩
    · rw [horder', horder, List.append_assoc]
      rfl
    · rw [hhand', hhand, List.append_assoc]
      rfl

theorem Coherent.values_cells_nodup (hb : b.Coherent) : (b.used.values.map (·.cell)).Nodup :=
  (b.placed_perm.map _).nodup_iff.1 hb.placed_cells_nodup

theorem Coherent.rowSorted_outside (hb : b.Coherent) (g : Grid) :
    Placement.RowSorted (b.outside g) :=
  Placement.rowSorted_sort (hb.values_cells_nodup.sublist (List.filter_sublist.map _))

theorem Coherent.run_resizeFrom (hb : b.Coherent) (hvs : vs.Perm b.used.values) (g : Grid) :
    (Edit.resizeFrom vs g).run b = .ok (b.resize g).2 (b.resize g).1 := by
  have hsort : Placement.sort Cell.rowBefore (vs.filter fun p => !g.contains p.cell) = b.outside g :=
    Placement.sort_eq_of_perm .across
      (hb.values_cells_nodup.sublist (List.filter_sublist.map _)) (hvs.filter _)
  rw [Edit.resizeFrom, hsort, EStateM.run_bind, EStateM.run_modify]
  exact run_evict _ _

theorem Coherent.resizes (hb : b.Coherent) (g : Grid) :
    b.Resizes g (b.resize g).1 (b.resize g).2 := by
  have hg : Coherent { b with grid := g } := { hb with }
  have hids : ((b.outside g).map (·.tile.id)).Nodup := by
    refine List.Nodup.map_on (fun p hp q hq h => ?_) (hb.rowSorted_outside g).sorted.nodup
    exact hb.eq_of_id_eq (mem_outside.1 hp).1 (mem_outside.1 hq).1 h
  obtain ⟨hmoved, horder, hhand⟩ :=
    hg.evict_eq hids fun p hp => hb.mem_placed.1 (mem_outside.1 hp).1
  rw [← hmoved] at hhand
  refine ⟨grid_resize b g, fun p => ?_, ⟨_, hb.rowSorted_outside g, fun p => ?_, hmoved⟩, ?_, hhand⟩
  · rw [hb.placed_resize, List.mem_filter, Placement.contains_iff]
  · rw [mem_outside, Placement.contains_iff]
  · rw [resize_eq, horder, hmoved, List.map_map]
    rfl

theorem resize_of_inside (hin : b.Inside) : b.resize b.grid = (b, []) := by
  have hnone : b.outside b.grid = [] := by
    refine List.eq_nil_iff_forall_not_mem.2 fun p hp => ?_
    obtain ⟨hp, hn⟩ := mem_outside.1 hp
    exact hn (hin p hp)
  rw [resize_eq, hnone]
  rfl

/-- A new grid leaves on it what fits and puts the rest back into the hand, row by row. The same grid
once more changes nothing. -/
theorem resize_exact (hb : b.Reachable) (g : Grid) :
    b.Resizes g (b.resize g).1 (b.resize g).2 ∧
    (∀ vs, vs.Perm b.used.values →
      (Edit.resizeFrom vs g).run b = .ok (b.resize g).2 (b.resize g).1) ∧
    ∀ vs, vs.Perm (b.resize g).1.used.values →
      (Edit.resizeFrom vs g).run (b.resize g).1 = .ok [] (b.resize g).1 := by
  obtain ⟨hco, -⟩ := hb.coherent
  refine ⟨hco.resizes g, fun vs hvs => hco.run_resizeFrom hvs g, fun vs hvs => ?_⟩
  have hagain := resize_of_inside (hco.inside_resize g)
  rw [grid_resize] at hagain
  rw [(hco.resize g).run_resizeFrom hvs, hagain]

theorem resize_exact_laid : laid.Reachable ∧ ∃ c, laid.hand = [⟨3, 'C'⟩] ∧
    (Edit.resizeFrom laid.used.values.reverse ⟨1, 1⟩).run laid = .ok [⟨2, 'B'⟩] c ∧
    laid.Resizes ⟨1, 1⟩ c [⟨2, 'B'⟩] ∧ (Edit.resizeFrom c.used.values ⟨1, 1⟩).run c = .ok [] c := by
  obtain ⟨hresizes, hrun, hagain⟩ := resize_exact reachable_laid ⟨1, 1⟩
  exact ⟨reachable_laid, _, rfl, hrun _ (List.reverse_perm _), hresizes, hagain _ (.refl _)⟩

end Board

end TileRace
