import TileRace.Proofs.Board.Batch

namespace TileRace.Board

variable {b c d : Board} {ps qs : List Placement} {p : Placement} {ids : List TileId} {e e' : BoardError}

theorem Coherent.eq_of_tables (hb : b.Coherent) (hc : c.Coherent) (grid : c.grid = b.grid)
    (order : c.order = b.order) (unused : ∀ id, c.unused.get? id = b.unused.get? id)
    (used : ∀ id, c.used.get? id = b.used.get? id) : c = b := by
  have htile (cell : Cell) : c.tileAt cell = b.tileAt cell :=
    Option.ext fun t => by rw [hc.tileAt_iff, hb.tileAt_iff, used]
  have hempty {b c : Board} (hc : ∀ {x column}, c.index.get? x = some column → column.size ≠ 0)
      (htile : ∀ cell, c.tileAt cell = b.tileAt cell) {x : Int} (hx : b.index.get? x = none) :
      c.index.get? x = none := by
    refine Option.eq_none_iff_forall_ne_some.2 fun column hcolumn => hc hcolumn ?_
    refine Table.size_eq_zero_iff.2 fun y => ?_
    have h := htile ⟨x, y⟩
    simpa [tileAt, hx, hcolumn] using h
  have hindex : c.index = b.index := by
    refine Table.ext_get? fun x => ?_
    cases hx : b.index.get? x with
    | none => exact hempty hc.columns htile hx
    | some column =>
      cases hx' : c.index.get? x with
      | none => cases (hempty hb.columns (fun cell => (htile cell).symm) hx').symm.trans hx
      | some column' =>
        refine congrArg some (Table.ext_get? fun y => ?_)
        have h := htile ⟨x, y⟩
        simpa [tileAt, hx, hx'] using h
  obtain ⟨grid', unused', order', used', index'⟩ := b
  obtain ⟨grid'', unused'', order'', used'', index''⟩ := c
  obtain rfl : unused'' = unused' := Table.ext_get? unused
  obtain rfl : used'' = used' := Table.ext_get? used
  obtain rfl : grid'' = grid' := grid
  obtain rfl : order'' = order' := order
  obtain rfl : index'' = index' := hindex
  rfl

@[simp] theorem vacate_grid (b : Board) (cell : Cell) : (b.vacate cell).grid = b.grid := by
  simp only [vacate]
  split <;> rfl

@[simp] theorem grid_take (b : Board) (id : TileId) : (b.take id).2.grid = b.grid := by
  simp only [take]
  split
  · rfl
  · split <;> simp only [vacate_grid]

theorem grid_takeAll (b : Board) (ids : List TileId) : (b.takeAll ids).2.grid = b.grid := by
  induction ids generalizing b with
  | nil => rfl
  | cons id ids ih => exact (ih (b.take id).2).trans (b.grid_take id)

theorem unused_takeAll (b : Board) (ids : List TileId) (x : TileId) :
    (b.takeAll ids).2.unused.get? x = if x ∈ ids then none else b.unused.get? x := by
  induction ids generalizing b with
  | nil => rfl
  | cons id ids ih =>
    change ((b.take id).2.takeAll ids).2.unused.get? x = _
    rw [ih, unused_take]
    by_cases hx : x = id <;> simp [hx]

theorem Coherent.used_takeAll (hb : b.Coherent) (ids : List TileId) (x : TileId) :
    (b.takeAll ids).2.used.get? x = if x ∈ ids then none else b.used.get? x := by
  induction ids generalizing b with
  | nil => rfl
  | cons id ids ih =>
    change ((b.take id).2.takeAll ids).2.used.get? x = _
    rw [ih (hb.take id), hb.used_take]
    by_cases hx : x = id <;> simp [hx]

theorem Coherent.order_takeAll (hb : b.Coherent) (ids : List TileId) :
    (b.takeAll ids).2.order = b.order.filter (· ∉ ids) := by
  induction ids generalizing b with
  | nil => exact (List.filter_eq_self.2 fun _ _ => by simp).symm
  | cons id ids ih =>
    change ((b.take id).2.takeAll ids).2.order = _
    rw [ih (hb.take id), hb.order_take, List.filter_filter]
    refine List.filter_congr fun x _ => ?_
    by_cases hx : x = id <;> simp [hx]

theorem foldl_place_frame (b : Board) (ps : List Placement) :
    (ps.foldl place b).grid = b.grid ∧ (ps.foldl place b).order = b.order ∧
      (ps.foldl place b).unused = b.unused := by
  induction ps generalizing b with
  | nil => exact ⟨rfl, rfl, rfl⟩
  | cons p ps ih => exact ih (b.place p)

theorem used_foldl_place (b : Board) (hids : (ps.map (·.tile.id)).Nodup) (x : TileId) :
    (ps.foldl place b).used.get? x = (ps.find? (·.tile.id = x)).or (b.used.get? x) := by
  induction ps generalizing b with
  | nil => rfl
  | cons p ps ih =>
    obtain ⟨hid, hids⟩ := List.nodup_cons.1 hids
    rw [List.foldl_cons, ih _ hids, place, Table.get?_insert]
    by_cases hp : p.tile.id = x
    · have hn : ps.find? (·.tile.id = x) = none := by
        rw [List.find?_eq_none]
        intro q hq he
        exact hid (List.mem_map.2 ⟨q, hq, by simpa [hp] using he⟩)
      simp [hp, hn]
    · rw [List.find?_cons_of_neg (by simpa using hp), if_neg (Ne.symm hp)]

theorem find?_id_of_mem (hids : (ps.map (·.tile.id)).Nodup) (hp : p ∈ ps) :
    ps.find? (·.tile.id = p.tile.id) = some p := by
  cases hf : ps.find? (·.tile.id = p.tile.id) with
  | none => exact ((List.find?_eq_none.1 hf) p hp (by simp)).elim
  | some q =>
    have hid : q.tile.id = p.tile.id := by simpa using List.find?_some hf
    rw [List.inj_on_of_nodup_map hids (List.mem_of_find?_eq_some hf) hp hid]

theorem find?_id_of_not_mem {x : TileId} (hx : x ∉ ps.map (·.tile.id)) :
    ps.find? (·.tile.id = x) = none := by
  rw [List.find?_eq_none]
  intro q hq he
  exact hx (List.mem_map.2 ⟨q, hq, by simpa using he⟩)

/-- `c` is `b` with every tile of a batch where the batch says, and every other tile where it was. -/
structure Relocates (b : Board) (ps : List Placement) (c : Board) : Prop where
  grid : c.grid = b.grid
  order : c.order = b.order.filter (· ∉ ps.map (·.tile.id))
  moved : ∀ p ∈ ps, c.used.get? p.tile.id = some p ∧ c.unused.get? p.tile.id = none ∧
    c.tileAt p.cell = some p.tile
  others : ∀ id ∉ ps.map (·.tile.id), c.used.get? id = b.used.get? id ∧
    c.unused.get? id = b.unused.get? id

theorem Coherent.relocates_move (hb : b.Coherent) (h : b.move ps = .ok c) : b.Relocates ps c := by
  have hc := hb.move h
  obtain ⟨hm, rfl⟩ := hb.move_eq_ok_iff.1 h
  obtain ⟨hgrid, horder, hunused⟩ := foldl_place_frame (b.takeAll (ps.map (·.tile.id))).2 ps
  have hused := used_foldl_place (b.takeAll (ps.map (·.tile.id))).2 hm.ids_nodup
  refine ⟨hgrid.trans (b.grid_takeAll _), horder.trans (hb.order_takeAll _), fun p hp => ?_,
    fun id hid => ?_⟩
  · have hplaced : (ps.foldl Board.place (b.takeAll (ps.map (·.tile.id))).2).used.get? p.tile.id =
        some p := by
      rw [hused, find?_id_of_mem hm.ids_nodup hp, Option.some_or]
    refine ⟨hplaced, ?_, (hc.tileAt_iff _ _).2 ⟨p, hplaced, rfl, rfl⟩⟩
    rw [hunused, unused_takeAll, if_pos (List.mem_map.2 ⟨p, hp, rfl⟩)]
  · rw [hused, find?_id_of_not_mem hid, Option.none_or, hb.used_takeAll, if_neg hid, hunused,
      unused_takeAll, if_neg hid]
    exact ⟨rfl, rfl⟩

/-- A batch says what becomes of a board, in whatever order it names the tiles. -/
theorem Relocates.unique (hc : c.Coherent) (hd : d.Coherent) (h : b.Relocates ps c)
    (h' : b.Relocates qs d) (hperm : ps.Perm qs) : d = c := by
  have hmem (id : TileId) : id ∈ qs.map (·.tile.id) ↔ id ∈ ps.map (·.tile.id) :=
    (hperm.map _).mem_iff.symm
  have hboth (id : TileId) :
      d.unused.get? id = c.unused.get? id ∧ d.used.get? id = c.used.get? id := by
    by_cases hid : id ∈ ps.map (·.tile.id)
    · obtain ⟨p, hp, rfl⟩ := List.mem_map.1 hid
      obtain ⟨hused, hunused, -⟩ := h.moved p hp
      obtain ⟨hused', hunused', -⟩ := h'.moved p (hperm.mem_iff.1 hp)
      exact ⟨hunused'.trans hunused.symm, hused'.trans hused.symm⟩
    · obtain ⟨hused, hunused⟩ := h.others id hid
      obtain ⟨hused', hunused'⟩ := h'.others id (mt (hmem id).1 hid)
      exact ⟨hunused'.trans hunused.symm, hused'.trans hused.symm⟩
  refine hc.eq_of_tables hd (h'.grid.trans h.grid.symm) ?_ (fun id => (hboth id).1)
    fun id => (hboth id).2
  rw [h'.order, h.order]
  exact List.filter_congr fun id _ => by simp only [hmem]

theorem Movable.perm (h : b.Movable ps) (hperm : ps.Perm qs) : b.Movable qs where
  owned p hp := h.owned p (hperm.mem_iff.2 hp)
  inside p hp := h.inside p (hperm.mem_iff.2 hp)
  ids_nodup := (hperm.map _).nodup_iff.1 h.ids_nodup
  cells_nodup := (hperm.map _).nodup_iff.1 h.cells_nodup
  free p hp t ht := (hperm.map _).mem_iff.1 (h.free p (hperm.mem_iff.2 hp) t ht)

theorem Coherent.movable_iff (hb : b.Coherent) : (∃ c, b.move ps = .ok c) ↔ b.Movable ps :=
  ⟨fun ⟨_, h⟩ => (hb.move_eq_ok_iff.1 h).1, fun h => ⟨_, hb.move_eq_ok_iff.2 ⟨h, rfl⟩⟩⟩

theorem Coherent.move_congr (hb : b.Coherent) (hperm : ps.Perm qs) (h : b.move ps = .ok c) :
    b.move qs = .ok c := by
  obtain ⟨d, hd⟩ := hb.movable_iff.2 ((hb.movable_iff.1 ⟨c, h⟩).perm hperm)
  rw [hd, (hb.relocates_move h).unique (hb.move h) (hb.move hd) (hb.relocates_move hd) hperm]

inductive Flaw (b : Board) (before : List Placement) (p : Placement) : BoardError → Prop where
  | unknown (unowned : b.owned? p.tile.id = none) : Flaw b before p (.unknownTile p.tile.id)
  | letter {t} (owner : b.owned? p.tile.id = some t) (letter : t.letter ≠ p.tile.letter) :
    Flaw b before p (.letterMismatch p.tile.id t.letter p.tile.letter)
  | repeated (owned : b.owned? p.tile.id = some p.tile)
    (again : p.tile.id ∈ before.map (·.tile.id)) : Flaw b before p (.repeatedTile p.tile.id)
  | outside (owned : b.owned? p.tile.id = some p.tile) (once : p.tile.id ∉ before.map (·.tile.id))
    (outside : b.grid.contains p.cell = false) : Flaw b before p (.outOfBounds p.tile.id p.cell)
  | shared (owned : b.owned? p.tile.id = some p.tile) (once : p.tile.id ∉ before.map (·.tile.id))
    (inside : b.grid.contains p.cell) (shared : p.cell ∈ before.map (·.cell)) :
    Flaw b before p (.collision p.cell)

/-- Nothing is wrong with any placement of a batch that comes after others. -/
def Flawless (b : Board) (before ps : List Placement) : Prop :=
  ∀ pre p post, ps = pre ++ p :: post → ∀ e, ¬ b.Flaw (before ++ pre) p e

def Blocked (b : Board) (ps : List Placement) (p : Placement) : Prop :=
  ∃ t, b.tileAt p.cell = some t ∧ t.id ∉ ps.map (·.tile.id)

/-- Why a batch is refused: for the first placement with which something is wrong, or else for the
first one that is blocked. -/
inductive Spoils (b : Board) (ps : List Placement) : BoardError → Prop where
  | flaw {before p after e} (split : ps = before ++ p :: after) (first : b.Flawless [] before)
    (flaw : b.Flaw before p e) : Spoils b ps e
  | obstacle {before p after} (flawless : b.Flawless [] ps) (split : ps = before ++ p :: after)
    (first : ∀ q ∈ before, ¬ b.Blocked ps q) (blocked : b.Blocked ps p) :
    Spoils b ps (.collision p.cell)

section Checks

variable {before : List Placement} {cells : List Cell}

theorem Coherent.checkEach_of_flaw (hb : b.Coherent) (hids : ∀ x, x ∈ ids ↔ x ∈ before.map (·.tile.id))
    (hcells : ∀ x, x ∈ cells ↔ x ∈ before.map (·.cell)) (h : b.Flaw before p e) :
    b.checkEach ids cells (p :: ps) = .error e := by
  have hcheck (owned : b.owned? p.tile.id = some p.tile) : b.check p.tile = .ok () :=
    hb.check_eq_ok_iff.2 owned
  rw [checkEach]
  cases h with
  | unknown unowned => simp [check, unowned, bind, Except.bind]
  | letter owner letter => simp [check, owner, letter, bind, Except.bind]
  | repeated owned again => simp [hcheck owned, (hids _).2 again, bind, Except.bind, throw, throwThe,
      MonadExceptOf.throw]
  | outside owned once outside =>
    simp [hcheck owned, mt (hids _).1 once, outside, bind, Except.bind, throw, throwThe,
      MonadExceptOf.throw]
  | shared owned once inside shared =>
    simp [hcheck owned, mt (hids _).1 once, inside, (hcells _).2 shared, bind, Except.bind, throw,
      throwThe, MonadExceptOf.throw]

theorem Coherent.checkEach_of_not_flaw (hb : b.Coherent)
    (hids : ∀ x, x ∈ ids ↔ x ∈ before.map (·.tile.id))
    (hcells : ∀ x, x ∈ cells ↔ x ∈ before.map (·.cell)) (h : ∀ e, ¬ b.Flaw before p e) :
    b.checkEach ids cells (p :: ps) = b.checkEach (p.tile.id :: ids) (p.cell :: cells) ps := by
  have howned : b.owned? p.tile.id = some p.tile := by
    cases ho : b.owned? p.tile.id with
    | none => exact (h _ (.unknown ho)).elim
    | some t =>
      by_cases hl : t.letter = p.tile.letter
      · rw [Tile.ext (hb.owned_id ho) hl]
      · exact (h _ (.letter ho hl)).elim
  have honce : p.tile.id ∉ before.map (·.tile.id) := fun hm => h _ (.repeated howned hm)
  have hinside : b.grid.contains p.cell := by
    cases hg : b.grid.contains p.cell with
    | true => rfl
    | false => exact (h _ (.outside howned honce hg)).elim
  have hshared : p.cell ∉ before.map (·.cell) := fun hm => h _ (.shared howned honce hinside hm)
  rw [checkEach, hb.check_eq_ok_iff.2 howned]
  simp [mt (hids _).1 honce, hinside, mt (hcells _).1 hshared, bind, Except.bind]

theorem Coherent.flaw_unique (hb : b.Coherent) (h : b.Flaw before p e) (h' : b.Flaw before p e') :
    e = e' := by
  have hcheck {e : BoardError} (h : b.Flaw before p e) : b.checkEach (before.map (·.tile.id))
      (before.map (·.cell)) [p] = .error e :=
    hb.checkEach_of_flaw (fun _ => .rfl) (fun _ => .rfl) h
  exact Except.error.inj ((hcheck h).symm.trans (hcheck h'))

theorem flawless_cons : b.Flawless before (p :: ps) ↔
    (∀ e, ¬ b.Flaw before p e) ∧ b.Flawless (before ++ [p]) ps := by
  constructor
  · intro h
    refine ⟨fun e he => h [] p ps rfl e (by rwa [List.append_nil]), fun pre q post hsplit e he => ?_⟩
    refine h (p :: pre) q post (by rw [hsplit]; rfl) e ?_
    rwa [List.append_assoc] at he
  · rintro ⟨hp, hps⟩ pre q post hsplit e he
    cases pre with
    | nil =>
      obtain ⟨rfl, rfl⟩ := List.cons.inj hsplit
      exact hp e (by rwa [List.append_nil] at he)
    | cons p' pre =>
      obtain ⟨rfl, rfl⟩ := List.cons.inj hsplit
      exact hps pre q post rfl e (by rwa [List.append_assoc])

theorem mem_map_concat {α : Type*} {f : Placement → α} {l : List α}
    (h : ∀ x, x ∈ l ↔ x ∈ before.map f) (x : α) : x ∈ f p :: l ↔ x ∈ (before ++ [p]).map f := by
  simp [h, or_comm]

theorem Coherent.checkEach_eq_error_iff (hb : b.Coherent)
    (hids : ∀ x, x ∈ ids ↔ x ∈ before.map (·.tile.id))
    (hcells : ∀ x, x ∈ cells ↔ x ∈ before.map (·.cell)) : b.checkEach ids cells ps = .error e ↔
      ∃ pre p post, ps = pre ++ p :: post ∧ b.Flawless before pre ∧ b.Flaw (before ++ pre) p e := by
  induction ps generalizing before ids cells with
  | nil => simp [checkEach]
  | cons p ps ih =>
    by_cases hp : ∃ e, b.Flaw before p e
    · obtain ⟨e', hp⟩ := hp
      rw [hb.checkEach_of_flaw hids hcells hp, Except.error.injEq]
      constructor
      · rintro rfl
        exact ⟨[], p, ps, rfl, by simp [Flawless], by rwa [List.append_nil]⟩
      · rintro ⟨pre, q, post, hsplit, hfirst, hflaw⟩
        cases pre with
        | nil =>
          obtain ⟨rfl, rfl⟩ := List.cons.inj hsplit
          rw [List.append_nil] at hflaw
          exact hb.flaw_unique hp hflaw
        | cons p' pre =>
          obtain ⟨rfl, -⟩ := List.cons.inj hsplit
          exact ((flawless_cons.1 hfirst).1 e' hp).elim
    · have hp : ∀ e, ¬ b.Flaw before p e := not_exists.1 hp
      rw [hb.checkEach_of_not_flaw hids hcells hp, ih (mem_map_concat hids) (mem_map_concat hcells)]
      constructor
      · rintro ⟨pre, q, post, rfl, hfirst, hflaw⟩
        exact ⟨p :: pre, q, post, rfl, flawless_cons.2 ⟨hp, hfirst⟩, by
          rwa [List.append_assoc] at hflaw⟩
      · rintro ⟨pre, q, post, hsplit, hfirst, hflaw⟩
        cases pre with
        | nil =>
          obtain ⟨rfl, -⟩ := List.cons.inj hsplit
          exact (hp e (by rwa [List.append_nil] at hflaw)).elim
        | cons p' pre =>
          obtain ⟨rfl, rfl⟩ := List.cons.inj hsplit
          exact ⟨pre, q, post, rfl, (flawless_cons.1 hfirst).2, by rwa [List.append_assoc]⟩

theorem Coherent.checkEach_eq_ok_iff_flawless (hb : b.Coherent)
    (hids : ∀ x, x ∈ ids ↔ x ∈ before.map (·.tile.id))
    (hcells : ∀ x, x ∈ cells ↔ x ∈ before.map (·.cell)) :
    b.checkEach ids cells ps = .ok () ↔ b.Flawless before ps := by
  induction ps generalizing before ids cells with
  | nil => simp [checkEach, Flawless]
  | cons p ps ih =>
    rw [flawless_cons]
    by_cases hp : ∃ e, b.Flaw before p e
    · obtain ⟨e, hp⟩ := hp
      rw [hb.checkEach_of_flaw hids hcells hp]
      exact iff_of_false (by simp) fun h => h.1 e hp
    · have hp : ∀ e, ¬ b.Flaw before p e := not_exists.1 hp
      rw [hb.checkEach_of_not_flaw hids hcells hp, ih (mem_map_concat hids) (mem_map_concat hcells)]
      exact (and_iff_right hp).symm

end Checks

def blocks (b : Board) (moving : List TileId) (p : Placement) : Bool :=
  match b.tileAt p.cell with
  | some t => t.id ∉ moving
  | none => false

theorem obstacle?_eq (b : Board) (ps : List Placement) :
    b.obstacle? ps = (ps.find? (b.blocks (ps.map (·.tile.id)))).map (·.cell) := rfl

theorem obstacle?_eq_some_iff {cell : Cell} : b.obstacle? ps = some cell ↔
    ∃ before p after, ps = before ++ p :: after ∧ (∀ q ∈ before, ¬ b.Blocked ps q) ∧
      b.Blocked ps p ∧ p.cell = cell := by
  have hblocked (q : Placement) : b.blocks (ps.map (·.tile.id)) q ↔ b.Blocked ps q := by
    rw [Blocked, blocks]
    cases b.tileAt q.cell <;> simp
  rw [obstacle?_eq, Option.map_eq_some_iff]
  simp only [List.find?_eq_some_iff_append, Bool.not_eq_true', ← Bool.not_eq_true]
  constructor
  · rintro ⟨p, ⟨hp, before, after, hsplit, hfirst⟩, hcell⟩
    exact ⟨before, p, after, hsplit, fun q hq => mt (hblocked q).2 (hfirst q hq),
      (hblocked p).1 hp, hcell⟩
  · rintro ⟨before, p, after, hsplit, hfirst, hp, hcell⟩
    exact ⟨p, ⟨(hblocked p).2 hp, before, after, hsplit,
      fun q hq => mt (hblocked q).1 (hfirst q hq)⟩, hcell⟩

theorem Coherent.move_eq_error_iff (hb : b.Coherent) : b.move ps = .error e ↔ b.Spoils ps e := by
  have hflawless : b.checkEach [] [] ps = .ok () ↔ b.Flawless [] ps :=
    hb.checkEach_eq_ok_iff_flawless (fun _ => .rfl) fun _ => .rfl
  have hflaw {e : BoardError} : b.checkEach [] [] ps = .error e ↔
      ∃ pre p post, ps = pre ++ p :: post ∧ b.Flawless [] pre ∧ b.Flaw pre p e :=
    hb.checkEach_eq_error_iff (fun _ => .rfl) fun _ => .rfl
  rw [Board.move]
  cases hc : b.checkEach [] [] ps with
  | error e' =>
    simp only [bind, Except.bind, Except.error.injEq]
    constructor
    · rintro rfl
      obtain ⟨before, p, after, hsplit, hfirst, hp⟩ := hflaw.1 hc
      exact .flaw hsplit hfirst hp
    · rintro (⟨hsplit, hfirst, hp⟩ | ⟨hnone⟩)
      · exact Except.error.inj (hc.symm.trans (hflaw.2 ⟨_, _, _, hsplit, hfirst, hp⟩))
      · cases hc.symm.trans (hflawless.2 hnone)
  | ok u =>
    have hnone := hflawless.1 hc
    simp only [bind, Except.bind]
    cases ho : b.obstacle? ps with
    | none =>
      simp only [pure, Except.pure, reduceCtorEq, false_iff]
      rintro (⟨hsplit, hfirst, hp⟩ | ⟨-, hsplit, hfirst, hp⟩)
      · exact hnone _ _ _ hsplit _ hp
      · cases ho.symm.trans (obstacle?_eq_some_iff.2 ⟨_, _, _, hsplit, hfirst, hp, rfl⟩)
    | some cell =>
      simp only [throw, throwThe, MonadExceptOf.throw, Except.error.injEq]
      constructor
      · rintro rfl
        obtain ⟨before, p, after, hsplit, hfirst, hp, rfl⟩ := obstacle?_eq_some_iff.1 ho
        exact .obstacle hnone hsplit hfirst hp
      · rintro (⟨hsplit, hfirst, hp⟩ | ⟨-, hsplit, hfirst, hp⟩)
        · exact (hnone _ _ _ hsplit _ hp).elim
        · have hcell := obstacle?_eq_some_iff.2 ⟨_, _, _, hsplit, hfirst, hp, rfl⟩
          rw [Option.some.inj (ho.symm.trans hcell)]

end TileRace.Board
