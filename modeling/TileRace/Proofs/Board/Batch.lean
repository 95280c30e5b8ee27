import TileRace.Proofs.Board.Coherent

namespace TileRace.Board

variable {b c : Board}

theorem Coherent.takeAll (hb : b.Coherent) (ids : List TileId) : (b.takeAll ids).2.Coherent := by
  induction ids generalizing b with
  | nil => exact hb
  | cons id ids ih => exact ih (hb.take id)

theorem Coherent.owned?_takeAll (hb : b.Coherent) (ids : List TileId) (x : TileId) :
    (b.takeAll ids).2.owned? x = if x ∈ ids then none else b.owned? x := by
  induction ids generalizing b with
  | nil => rfl
  | cons id ids ih =>
    change ((b.take id).2.takeAll ids).2.owned? x = _
    rw [ih (hb.take id), hb.owned?_take]
    by_cases hx : x = id <;> simp [hx]

theorem Coherent.tileAt_takeAll (hb : b.Coherent) (ids : List TileId) (d : Cell) :
    (b.takeAll ids).2.tileAt d = (b.tileAt d).filter (·.id ∉ ids) := by
  induction ids generalizing b with
  | nil =>
    change b.tileAt d = _
    cases b.tileAt d <;> simp [Option.filter]
  | cons id ids ih =>
    change ((b.take id).2.takeAll ids).2.tileAt d = _
    rw [ih (hb.take id), hb.tileAt_take, Option.filter_filter]
    congr 1
    funext t
    by_cases ht : t.id = id <;> simp [ht]

theorem Coherent.takeAll_fst (hb : b.Coherent) {ids : List TileId} (hids : ids.Nodup) :
    (b.takeAll ids).1 = ids.filterMap b.owned? := by
  induction ids generalizing b with
  | nil => rfl
  | cons id ids ih =>
    obtain ⟨hid, hids⟩ := List.nodup_cons.1 hids
    change (b.take id).1.toList ++ ((b.take id).2.takeAll ids).1 = _
    have hsame : ∀ x ∈ ids, (b.take id).2.owned? x = b.owned? x := by
      intro x hx
      rw [hb.owned?_take, if_neg]
      rintro rfl
      exact hid hx
    rw [ih (hb.take id) hids, List.filterMap_congr hsame, take_fst, List.filterMap_cons]
    cases b.owned? id <;> rfl

theorem Coherent.foldl_place (hb : b.Coherent) {ps : List Placement}
    (hids : (ps.map (·.tile.id)).Nodup) (hcells : (ps.map (·.cell)).Nodup)
    (hfree : ∀ p ∈ ps, b.owned? p.tile.id = none ∧ b.tileAt p.cell = none) :
    (ps.foldl Board.place b).Coherent ∧ ∀ x, (ps.foldl Board.place b).owned? x =
      ((ps.find? (·.tile.id = x)).map (·.tile)).or (b.owned? x) := by
  induction ps generalizing b with
  | nil => exact ⟨hb, fun x => rfl⟩
  | cons p ps ih =>
    obtain ⟨hid, hids⟩ := List.nodup_cons.1 hids
    obtain ⟨hcell, hcells⟩ := List.nodup_cons.1 hcells
    obtain ⟨ho, ht⟩ := hfree p List.mem_cons_self
    have hrest : ∀ q ∈ ps,
        (b.place p).owned? q.tile.id = none ∧ (b.place p).tileAt q.cell = none := by
      intro q hq
      obtain ⟨hqo, hqt⟩ := hfree q (List.mem_cons_of_mem _ hq)
      rw [owned?_place ho, tileAt_place, if_neg, if_neg]
      · exact ⟨hqo, hqt⟩
      · exact fun he => hcell (List.mem_map.2 ⟨q, hq, he⟩)
      · exact fun he => hid (List.mem_map.2 ⟨q, hq, he⟩)
    obtain ⟨hc, hx⟩ := ih (hb.place ho ht) hids hcells hrest
    refine ⟨hc, fun x => ?_⟩
    rw [List.foldl_cons, hx, owned?_place ho]
    by_cases hp : p.tile.id = x
    · have hn : ps.find? (·.tile.id = x) = none := by
        rw [List.find?_eq_none]
        intro q hq he
        exact hid (List.mem_map.2 ⟨q, hq, by simpa [hp] using he⟩)
      simp [hp, hn]
    · rw [List.find?_cons_of_neg (by simpa using hp), if_neg (Ne.symm hp)]

/-- A batch that can be moved as a whole: of tiles and cells that are all different, to cells on
the grid that are free or left by a tile of the batch. -/
structure Movable (b : Board) (ps : List Placement) : Prop where
  owned : ∀ p ∈ ps, b.owned? p.tile.id = some p.tile
  inside : ∀ p ∈ ps, b.grid.contains p.cell
  ids_nodup : (ps.map (·.tile.id)).Nodup
  cells_nodup : (ps.map (·.cell)).Nodup
  free : ∀ p ∈ ps, ∀ t, b.tileAt p.cell = some t → t.id ∈ ps.map (·.tile.id)

theorem Coherent.checkEach_eq_ok_iff (hb : b.Coherent) {ps : List Placement} {ids : List TileId}
    {cells : List Cell} : b.checkEach ids cells ps = .ok () ↔
      (∀ p ∈ ps, b.owned? p.tile.id = some p.tile ∧ b.grid.contains p.cell) ∧
      (∀ p ∈ ps, p.tile.id ∉ ids ∧ p.cell ∉ cells) ∧
      (ps.map (·.tile.id)).Nodup ∧ (ps.map (·.cell)).Nodup := by
  induction ps generalizing ids cells with
  | nil => simp [checkEach]
  | cons p ps ih =>
    rw [checkEach]
    cases hc : b.check p.tile with
    | error e =>
      have h : b.owned? p.tile.id ≠ some p.tile := fun ho => by
        rw [hb.check_eq_ok_iff.2 ho] at hc
        cases hc
      simp [bind, Except.bind, h]
    | ok u =>
      have h := hb.check_eq_ok_iff.1 hc
      simp only [bind, Except.bind, throw, throwThe, MonadExceptOf.throw]
      by_cases hi : p.tile.id ∈ ids
      · simp [hi]
      by_cases hg : b.grid.contains p.cell
      · by_cases hx : p.cell ∈ cells
        · simp [hi, hg, hx]
        · simp only [hi, hg, hx, if_false, Bool.not_true, Bool.false_eq_true, ih, List.mem_cons,
            not_or, List.map_cons, List.nodup_cons, List.mem_map]
          grind
      · simp [hi, hg]

theorem obstacle?_eq_none_iff {ps : List Placement} : b.obstacle? ps = none ↔
    ∀ p ∈ ps, ∀ t, b.tileAt p.cell = some t → t.id ∈ ps.map (·.tile.id) := by
  rw [obstacle?, Option.map_eq_none_iff, List.find?_eq_none]
  refine forall₂_congr fun p _ => ?_
  cases b.tileAt p.cell <;> simp

theorem Movable.place_eq (hb : b.Coherent) {ps : List Placement} (hm : b.Movable ps) (c : Board) :
    ((b.takeAll (ps.map (·.tile.id))).1.zip ps).foldl
      (fun c e => c.place { e.2 with tile := e.1 }) c = ps.foldl Board.place c := by
  have hfst : (b.takeAll (ps.map (·.tile.id))).1 = ps.map (·.tile) := by
    rw [hb.takeAll_fst hm.ids_nodup, List.filterMap_map,
      List.filterMap_congr (g := some ∘ (·.tile)) hm.owned, List.filterMap_eq_map]
  rw [hfst, ← List.map_prod_right_eq_zip, List.foldl_map]

theorem Coherent.move_eq_ok_iff (hb : b.Coherent) {ps : List Placement} :
    b.move ps = .ok c ↔
      b.Movable ps ∧ c = ps.foldl Board.place (b.takeAll (ps.map (·.tile.id))).2 := by
  rw [move]
  cases hc : b.checkEach [] [] ps with
  | error e =>
    have hn : ¬ b.Movable ps := fun hm => by
      have h : b.checkEach [] [] ps = .ok () := hb.checkEach_eq_ok_iff.2
        ⟨fun p hp => ⟨hm.owned p hp, hm.inside p hp⟩, by simp, hm.ids_nodup, hm.cells_nodup⟩
      rw [hc] at h
      cases h
    simp [bind, Except.bind, hn]
  | ok u =>
    obtain ⟨hp, -, hids, hcells⟩ := hb.checkEach_eq_ok_iff.1 hc
    simp only [bind, Except.bind]
    cases ho : b.obstacle? ps with
    | some d =>
      have hn : ¬ b.Movable ps := fun hm => by
        rw [obstacle?_eq_none_iff.2 hm.free] at ho
        cases ho
      simp [throw, throwThe, MonadExceptOf.throw, hn]
    | none =>
      have hm : b.Movable ps := ⟨fun p h => (hp p h).1, fun p h => (hp p h).2, hids, hcells,
        obstacle?_eq_none_iff.1 ho⟩
      simp only [pure, Except.pure, Except.ok.injEq, hm, true_and]
      rw [hm.place_eq hb]
      exact eq_comm

theorem Movable.room (hb : b.Coherent) {ps : List Placement} (hm : b.Movable ps) :
    ∀ p ∈ ps, (b.takeAll (ps.map (·.tile.id))).2.owned? p.tile.id = none ∧
      (b.takeAll (ps.map (·.tile.id))).2.tileAt p.cell = none := by
  intro p hp
  rw [hb.owned?_takeAll, if_pos (List.mem_map.2 ⟨p, hp, rfl⟩), hb.tileAt_takeAll,
    Option.filter_eq_none_iff]
  exact ⟨rfl, fun t ht => by simpa using hm.free p hp t ht⟩

theorem Coherent.move (hb : b.Coherent) {ps : List Placement} (h : b.move ps = .ok c) :
    c.Coherent := by
  obtain ⟨hm, rfl⟩ := hb.move_eq_ok_iff.1 h
  exact ((hb.takeAll _).foldl_place hm.ids_nodup hm.cells_nodup (hm.room hb)).1

theorem Coherent.owned?_move (hb : b.Coherent) {ps : List Placement} (h : b.move ps = .ok c)
    (x : TileId) : c.owned? x = b.owned? x := by
  obtain ⟨hm, rfl⟩ := hb.move_eq_ok_iff.1 h
  rw [((hb.takeAll _).foldl_place hm.ids_nodup hm.cells_nodup (hm.room hb)).2, hb.owned?_takeAll]
  cases hf : ps.find? (·.tile.id = x) with
  | none =>
    have hx : x ∉ ps.map (·.tile.id) := by
      simpa [List.find?_eq_none] using hf
    rw [if_neg hx]
    rfl
  | some p =>
    have hp := hm.owned p (List.mem_of_find?_eq_some hf)
    have hx : p.tile.id = x := by simpa using List.find?_some hf
    rw [Option.map_some, Option.some_or, ← hx, hp]

theorem Coherent.move_perm (hb : b.Coherent) {ps : List Placement} (h : b.move ps = .ok c) :
    c.tiles.Perm b.tiles :=
  hb.tiles_perm (hb.move h) (hb.owned?_move h)

theorem Coherent.evict (hb : b.Coherent) (ps : List Placement) :
    (b.evict ps).2.Coherent ∧ ∀ x, (b.evict ps).2.owned? x = b.owned? x := by
  induction ps generalizing b with
  | nil => exact ⟨hb, fun _ => rfl⟩
  | cons p ps ih =>
    cases ht : b.take p.tile.id with
    | mk found c =>
      have hfst := b.take_fst p.tile.id
      have hc := hb.take p.tile.id
      have ho := hb.owned?_take p.tile.id
      rw [ht] at hfst hc ho
      cases found with
      | none =>
        have he : c = b := by
          have h := take_of_none hfst.symm
          rwa [ht] at h
        simp only [Board.evict, ht, he]
        exact ih hb
      | some t =>
        have hid := hb.owned_id hfst.symm
        have hn : c.owned? t.id = none := by rw [ho, if_pos hid]
        obtain ⟨hcoh, howned⟩ := ih (hc.hold hn)
        simp only [Board.evict, ht]
        refine ⟨hcoh, fun x => ?_⟩
        rw [howned, owned?_hold, ho]
        by_cases hx : x = p.tile.id
        · rw [if_pos (hx.trans hid.symm), hx]
          exact hfst
        · rw [if_neg (fun h => hx (h.trans hid)), if_neg hx]

theorem Coherent.resize (hb : b.Coherent) (g : Grid) : (b.resize g).1.Coherent := by
  have hg : Coherent { b with grid := g } := { hb with }
  exact (hg.evict _).1

theorem Coherent.owned?_resize (hb : b.Coherent) (g : Grid) (x : TileId) :
    (b.resize g).1.owned? x = b.owned? x := by
  have hg : Coherent { b with grid := g } := { hb with }
  exact (hg.evict _).2 x

theorem Coherent.resize_perm (hb : b.Coherent) (g : Grid) :
    (b.resize g).1.tiles.Perm b.tiles :=
  hb.tiles_perm (hb.resize g) (hb.owned?_resize g)

theorem foldlM_add_induction {P : Board → Prop} {ts : List Tile}
    (hadd : ∀ {b c t}, P b → b.add t = .ok c → P c) (hb : P b) (h : ts.foldlM add b = .ok c) :
    P c := by
  induction ts generalizing b with
  | nil =>
    cases h
    exact hb
  | cons t ts ih =>
    rw [List.foldlM_cons] at h
    cases ha : b.add t with
    | error e =>
      rw [ha] at h
      cases h
    | ok d =>
      rw [ha] at h
      exact ih (hadd hb ha) h

theorem Coherent.foldlM_add (hb : b.Coherent) {ts : List Tile} (hts : (ts.map (·.id)).Nodup)
    (hfree : ∀ t ∈ ts, b.owned? t.id = none) :
    ∃ c, ts.foldlM add b = .ok c ∧ c.Coherent ∧ c.hand = b.hand ++ ts ∧ c.used = b.used ∧
      c.grid = b.grid := by
  induction ts generalizing b with
  | nil => exact ⟨b, rfl, hb, by simp, rfl, rfl⟩
  | cons t ts ih =>
    obtain ⟨ht, hts⟩ := List.nodup_cons.1 hts
    have hn := hfree t List.mem_cons_self
    have hrest : ∀ u ∈ ts, (b.hold t).owned? u.id = none := by
      intro u hu
      rw [owned?_hold, if_neg, hfree u (List.mem_cons_of_mem _ hu)]
      exact fun he => ht (List.mem_map.2 ⟨u, hu, he⟩)
    obtain ⟨c, hc, hcoh, hhand, hused, hgrid⟩ := ih (hb.hold hn) hts hrest
    refine ⟨c, ?_, hcoh, ?_, hused, hgrid⟩
    · rw [List.foldlM_cons, add_eq_ok_iff.2 ⟨hn, rfl⟩]
      exact hc
    · rw [hhand, hb.hand_hold hn, List.append_assoc]
      rfl

theorem tiles_perm_append {ts : List Tile} (hhand : c.hand = b.hand ++ ts)
    (hused : c.used = b.used) : c.tiles.Perm (ts ++ b.tiles) := by
  rw [tiles, tiles, hhand, placed, placed, hused, ← List.append_assoc]
  exact List.perm_append_comm.append_right _

theorem Coherent.ofTiles (g : Grid) {ts : List Tile} (hts : (ts.map (·.id)).Nodup) :
    ∃ c, Board.ofTiles g ts = .ok c ∧ c.Coherent ∧ c.hand = ts ∧ c.placed = [] ∧ c.grid = g := by
  obtain ⟨c, hc, hcoh, hhand, hused, hgrid⟩ := (Coherent.empty g).foldlM_add hts fun _ _ => rfl
  refine ⟨c, hc, hcoh, hhand, ?_, hgrid⟩
  rw [placed, hused]
  rfl

end TileRace.Board
