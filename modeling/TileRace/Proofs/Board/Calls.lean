import TileRace.Proofs.Board.Eviction

namespace TileRace.Board

/-- Changes a board step by step. What was changed before an error stays changed. -/
abbrev Edit := EStateM BoardError Board

namespace Edit

def check (t : Tile) : Edit Unit := do
  match (← get).owned? t.id with
  | none => throw (.unknownTile t.id)
  | some o =>
    if o.letter = t.letter then return else throw (.letterMismatch o.id o.letter t.letter)

def take (id : TileId) : Edit (Option Tile) := modifyGet fun b => b.take id

def add (t : Tile) : Edit Unit := do
  if ((← get).owned? t.id).isSome then throw (.duplicateTile t.id) else modify (·.hold t)

def remove (t : Tile) : Edit Unit := do
  check t
  discard (take t.id)

def checkEach (moving : List TileId) (targets : List Cell) : List Placement → Edit Unit
  | [] => return
  | p :: ps => do
    check p.tile
    if p.tile.id ∈ moving then throw (.repeatedTile p.tile.id)
    else if !(← get).grid.contains p.cell then throw (.outOfBounds p.tile.id p.cell)
    else if p.cell ∈ targets then throw (.collision p.cell)
    else checkEach (p.tile.id :: moving) (p.cell :: targets) ps

def avoid (moving : List TileId) (p : Placement) : Edit Unit := do
  match (← get).tileAt p.cell with
  | none => return
  | some t => if t.id ∈ moving then return else throw (.collision p.cell)

def takeAll : List TileId → Edit (List Tile)
  | [] => return []
  | id :: ids => do
    let found ← take id
    return found.toList ++ (← takeAll ids)

def move (ps : List Placement) : Edit Unit := do
  checkEach [] [] ps
  ps.forM (avoid (ps.map (·.tile.id)))
  let ts ← takeAll (ps.map (·.tile.id))
  (ts.zip ps).forM fun e => modify (·.place { e.2 with tile := e.1 })

def evict : List Placement → Edit (List Tile)
  | [] => return []
  | p :: ps => do
    match ← take p.tile.id with
    | some t =>
      modify (·.hold t)
      return t :: (← evict ps)
    | none => evict ps

def resize (g : Grid) : Edit (List Tile) := do
  modify ({ · with grid := g })
  let used := (← get).used.values
  evict (Placement.sort Cell.rowBefore (used.filter fun p => !g.contains p.cell))

end Edit

inductive Call where
  | add (t : Tile)
  | remove (t : Tile)
  | move (ps : List Placement)
  | resize (g : Grid)

namespace Call

def edit : Call → Edit Unit
  | .add t => Edit.add t
  | .remove t => Edit.remove t
  | .move ps => Edit.move ps
  | .resize g => do
    let _moved ← Edit.resize g

/-- The board as a call leaves it, whether it succeeds or fails. -/
def after (call : Call) (b : Board) : Board :=
  match call.edit.run b with
  | .ok _ c => c
  | .error _ c => c

end Call

/-- A board made of some tiles, after any calls. -/
inductive Reachable : Board → Prop where
  | made {g ts b} (h : ofTiles g ts = .ok b) : Reachable b
  | call {b} (hb : Reachable b) (call : Call) : Reachable (call.after b)

variable {b c : Board} {ps : List Placement} {e : BoardError}

/-- What comes of a call that changes nothing unless it succeeds. -/
def settled (b : Board) : Except BoardError Board → EStateM.Result BoardError Board Unit
  | .ok c => .ok () c
  | .error e => .error e b

theorem run_add (b : Board) (t : Tile) : (Edit.add t).run b = b.settled (b.add t) := by
  simp only [Edit.add, add, EStateM.run_bind, EStateM.run_get]
  split <;> rfl

theorem Coherent.run_check (hb : b.Coherent) (t : Tile) :
    (Edit.check t).run b = b.settled ((b.check t).map fun _ => b) := by
  simp only [Edit.check, Board.check, EStateM.run_bind, EStateM.run_get]
  cases ho : b.owned? t.id with
  | none => rfl
  | some o =>
    simp only [hb.owned_id ho]
    split <;> rfl

theorem Coherent.run_remove (hb : b.Coherent) (t : Tile) :
    (Edit.remove t).run b = b.settled (b.remove t) := by
  rw [Edit.remove, Board.remove, EStateM.run_bind, hb.run_check]
  cases b.check t <;> rfl

theorem checkEach_cons (b : Board) (ids : List TileId) (cells : List Cell) (p : Placement)
    (ps : List Placement) : b.checkEach ids cells (p :: ps) = match b.check p.tile with
      | .error e => .error e
      | .ok _ =>
        if p.tile.id ∈ ids then .error (.repeatedTile p.tile.id)
        else if !b.grid.contains p.cell then .error (.outOfBounds p.tile.id p.cell)
        else if p.cell ∈ cells then .error (.collision p.cell)
        else b.checkEach (p.tile.id :: ids) (p.cell :: cells) ps := by
  rw [checkEach]
  cases b.check p.tile with
  | error e => rfl
  | ok u =>
    by_cases hid : p.tile.id ∈ ids
    · simp [hid, bind, Except.bind, throw, throwThe, MonadExceptOf.throw]
    · simp only [hid, bind, Except.bind, if_false]
      cases b.grid.contains p.cell with
      | false => rfl
      | true => by_cases hc : p.cell ∈ cells <;> simp [hc, throw, throwThe, MonadExceptOf.throw]

theorem Coherent.run_checkEach (hb : b.Coherent) (ids : List TileId) (cells : List Cell)
    (ps : List Placement) : (Edit.checkEach ids cells ps).run b =
      b.settled ((b.checkEach ids cells ps).map fun _ => b) := by
  induction ps generalizing ids cells with
  | nil => rfl
  | cons p ps ih =>
    rw [Edit.checkEach, checkEach_cons, EStateM.run_bind, hb.run_check]
    cases b.check p.tile with
    | error e => rfl
    | ok u =>
      simp only [settled, Except.map]
      split
      · rfl
      · rw [EStateM.run_bind, EStateM.run_get]
        simp only
        split
        · rfl
        · split
          · rfl
          · exact ih _ _

theorem run_avoid (ids : List TileId) (b : Board) (p : Placement) : (Edit.avoid ids p).run b =
    if b.blocks ids p then .error (.collision p.cell) b else .ok () b := by
  rw [Edit.avoid, EStateM.run_bind, EStateM.run_get]
  cases ht : b.tileAt p.cell with
  | none => simp [blocks, ht]
  | some t => by_cases hid : t.id ∈ ids <;> simp [blocks, ht, hid]

theorem run_forM_avoid (ids : List TileId) (b : Board) (ps : List Placement) :
    (ps.forM (Edit.avoid ids)).run b = match ps.find? (b.blocks ids) with
      | some p => .error (.collision p.cell) b
      | none => .ok () b := by
  induction ps with
  | nil => rfl
  | cons p ps ih =>
    change (Edit.avoid ids p >>= fun _ => ps.forM (Edit.avoid ids)).run b = _
    rw [EStateM.run_bind, run_avoid, List.find?_cons]
    cases b.blocks ids p with
    | true => rfl
    | false => exact ih

theorem run_takeAll (b : Board) (ids : List TileId) :
    (Edit.takeAll ids).run b = .ok (b.takeAll ids).1 (b.takeAll ids).2 := by
  induction ids generalizing b with
  | nil => rfl
  | cons id ids ih =>
    simp only [Edit.takeAll, EStateM.run_bind, Edit.take, EStateM.run_modifyGet, ih]
    rfl

theorem run_forM_place (b : Board) (es : List (Tile × Placement)) :
    (es.forM fun e => (modify (·.place { e.2 with tile := e.1 }) : Edit Unit)).run b =
      .ok () (es.foldl (fun b e => b.place { e.2 with tile := e.1 }) b) := by
  induction es generalizing b with
  | nil => rfl
  | cons e es ih => exact ih (b.place { e.2 with tile := e.1 })

theorem Coherent.run_move (hb : b.Coherent) (ps : List Placement) :
    (Edit.move ps).run b = b.settled (b.move ps) := by
  rw [Edit.move, Board.move, EStateM.run_bind, hb.run_checkEach]
  cases b.checkEach [] [] ps with
  | error e => rfl
  | ok u =>
    change (ps.forM (Edit.avoid (ps.map (·.tile.id))) >>= fun _ => _).run b = _
    rw [EStateM.run_bind, run_forM_avoid, obstacle?_eq]
    cases ps.find? (b.blocks (ps.map (·.tile.id))) with
    | some p => rfl
    | none =>
      simp only [EStateM.run_bind, run_takeAll, run_forM_place]
      rfl

theorem run_evict (b : Board) (ps : List Placement) :
    (Edit.evict ps).run b = .ok (b.evict ps).1 (b.evict ps).2 := by
  induction ps generalizing b with
  | nil => rfl
  | cons p ps ih =>
    simp only [Edit.evict, EStateM.run_bind, Edit.take, EStateM.run_modifyGet, evict]
    cases h : b.take p.tile.id with
    | mk found c =>
      cases found with
      | none => exact ih c
      | some t =>
        simp only [EStateM.run_bind, EStateM.run_modify, ih]
        rfl

theorem run_resize (b : Board) (g : Grid) :
    (Edit.resize g).run b = .ok (b.resize g).2 (b.resize g).1 := by
  simp only [Edit.resize, EStateM.run_bind, EStateM.run_modify, EStateM.run_get, run_evict]
  rfl

def Call.result (b : Board) : Call → Except BoardError Board
  | .add t => b.add t
  | .remove t => b.remove t
  | .move ps => b.move ps
  | .resize g => .ok (b.resize g).1

theorem Coherent.run_edit (hb : b.Coherent) (call : Call) :
    call.edit.run b = b.settled (call.result b) := by
  cases call with
  | add t => exact b.run_add t
  | remove t => exact hb.run_remove t
  | move ps => exact hb.run_move ps
  | resize g =>
    rw [Call.edit, EStateM.run_bind, run_resize]
    rfl

theorem settled_eq_ok_iff {r : Except BoardError Board} {u : Unit} :
    b.settled r = .ok u c ↔ r = .ok c := by
  cases r <;> simp [settled]

theorem settled_eq_error_iff {r : Except BoardError Board} :
    b.settled r = .error e c ↔ r = .error e ∧ c = b := by
  cases r <;> simp [settled, eq_comm]

theorem Coherent.of_result (hb : b.Coherent) (hin : b.Inside) {call : Call}
    (h : call.result b = .ok c) : c.Coherent ∧ c.Inside := by
  cases call with
  | add t => exact ⟨hb.of_add h, hin.add h⟩
  | remove t =>
    refine ⟨hb.of_remove h, ?_⟩
    obtain ⟨-, rfl⟩ := hb.remove_eq_ok_iff.1 h
    exact hb.inside_take hin t.id
  | move ps => exact ⟨hb.move h, hb.inside_move hin h⟩
  | resize g =>
    cases h
    exact ⟨hb.resize g, hb.inside_resize g⟩

theorem Reachable.coherent (hb : b.Reachable) : b.Coherent ∧ b.Inside := by
  induction hb with
  | made h =>
    exact foldlM_add_induction (P := fun b => b.Coherent ∧ b.Inside)
      (fun hb ha => ⟨hb.1.of_add ha, hb.2.add ha⟩) ⟨.empty _, fun _ hp => (List.not_mem_nil hp).elim⟩ h
  | @call b _ call ih =>
    rw [Call.after, ih.1.run_edit]
    cases hr : call.result b with
    | error e => exact ih
    | ok c => exact ih.1.of_result ih.2 hr

/-- The tables of a board say the same, each in its own way. -/
structure Consistent (b : Board) : Prop where
  order : b.order.Perm b.unused.keys
  disjoint : b.unused.keys.Disjoint b.used.keys
  unused_id : ∀ id t, b.unused.get? id = some t → t.id = id
  used_id : ∀ id p, b.used.get? id = some p → p.tile.id = id
  index : ∀ x y t, (b.index.get? x).bind (·.get? y) = some t ↔
    ∃ id p, b.used.get? id = some p ∧ p.tile = t ∧ p.x.toInt = x ∧ p.y.toInt = y
  cells : ∀ id p id' p', b.used.get? id = some p → b.used.get? id' = some p' → p.x = p'.x →
    p.y = p'.y → id = id'
  columns : ∀ x column, b.index.get? x = some column → column.size ≠ 0
  inside : ∀ id p, b.used.get? id = some p → b.grid.contains p.cell

theorem Coherent.consistent (hb : b.Coherent) (hin : b.Inside) : b.Consistent where
  order := (List.perm_ext_iff_of_nodup hb.order_nodup b.unused.keys_nodup).2 fun id => by
    rw [hb.mem_order, Table.mem_keys]
  disjoint := by
    intro id hu hp
    obtain ⟨t, ht⟩ := Table.mem_keys.1 hu
    exact Table.not_mem_keys.2 (hb.apart ht) hp
  unused_id _ _ h := hb.unused_id h
  used_id _ _ h := hb.used_id h
  index x y t := by
    refine (hb.tileAt_iff ⟨x, y⟩ t).trans ⟨?_, ?_⟩
    · rintro ⟨p, hp, ht, hc⟩
      exact ⟨t.id, p, hp, ht, congrArg Cell.x hc, congrArg Cell.y hc⟩
    · rintro ⟨id, p, hp, rfl, rfl, rfl⟩
      exact ⟨p, (hb.used_id hp).symm ▸ hp, rfl, rfl⟩
  cells id p id' p' hp hp' hx hy := by
    have hid := hb.used_id hp
    have hid' := hb.used_id hp'
    have hcell : p.cell = p'.cell := by rw [Placement.cell, Placement.cell, hx, hy]
    have he := hb.eq_of_cell_eq (hb.mem_placed.2 (hid.symm ▸ hp)) (hb.mem_placed.2 (hid'.symm ▸ hp'))
      hcell
    rw [← hid, ← hid', he]
  columns _ _ h := hb.columns h
  inside id p hp := hin p (hb.mem_placed.2 ((hb.used_id hp).symm ▸ hp))

namespace Call

def Allowed (b : Board) : Call → Prop
  | .add t => t.id ∉ b.tiles.map (·.id)
  | .remove t => t ∈ b.tiles
  | .move ps => b.Movable ps
  | .resize _ => True

def Effect (b c : Board) : Call → Prop
  | .add t => c.tiles.Perm (t :: b.tiles)
  | .remove t => b.tiles.Perm (t :: c.tiles)
  | .move _ => c.tiles.Perm b.tiles
  | .resize _ => c.tiles.Perm b.tiles

end Call

theorem Coherent.allowed_iff (hb : b.Coherent) (call : Call) :
    (∃ c, call.result b = .ok c) ↔ call.Allowed b := by
  cases call with
  | add t =>
    simp only [Call.result, add_eq_ok_iff, exists_and_left, exists_eq, and_true]
    refine ⟨fun h hm => ?_, hb.not_mem_ids⟩
    obtain ⟨u, hu, he⟩ := List.mem_map.1 hm
    rw [hb.mem_tiles, he, h] at hu
    cases hu
  | remove t =>
    simp only [Call.result, hb.remove_eq_ok_iff, exists_and_left, exists_eq, and_true]
    exact hb.mem_tiles.symm
  | move ps => exact hb.movable_iff
  | resize g => exact iff_of_true ⟨_, rfl⟩ trivial

theorem Coherent.effect (hb : b.Coherent) {call : Call} (h : call.result b = .ok c) :
    call.Effect b c := by
  cases call with
  | add t =>
    obtain ⟨ht, rfl⟩ := add_eq_ok_iff.1 h
    exact hb.hold_perm ht
  | remove t => exact hb.remove_perm h
  | move ps => exact hb.move_perm h
  | resize g =>
    cases h
    exact hb.resize_perm g

def laid : Board :=
  (Call.move [⟨⟨1, 'A'⟩, 0, 0⟩, ⟨⟨2, 'B'⟩, 1, 0⟩]).after
    ((ofTiles ⟨2, 2⟩ [⟨1, 'A'⟩, ⟨2, 'B'⟩, ⟨3, 'C'⟩]).toOption.getD default)

theorem reachable_laid : laid.Reachable := by
  have h : ofTiles ⟨2, 2⟩ [⟨1, 'A'⟩, ⟨2, 'B'⟩, ⟨3, 'C'⟩] =
      .ok ((ofTiles ⟨2, 2⟩ [⟨1, 'A'⟩, ⟨2, 'B'⟩, ⟨3, 'C'⟩]).toOption.getD default) := rfl
  exact .call (.made h) _

/-- Whatever calls made it, the tables of a board agree, and each further call either succeeds, and
the owner gains or loses just what it says, or fails and leaves everything as it was. -/
theorem tables_consistent (hb : b.Reachable) : b.Consistent ∧ ∀ call : Call,
    (call.Allowed b ∧ ∃ c, call.edit.run b = .ok () c ∧ call.Effect b c) ∨
      (¬ call.Allowed b ∧ ∃ e, call.edit.run b = .error e b) := by
  obtain ⟨hco, hin⟩ := hb.coherent
  refine ⟨hco.consistent hin, fun call => ?_⟩
  rw [hco.run_edit, ← hco.allowed_iff]
  cases hr : call.result b with
  | ok c => exact .inl ⟨⟨c, rfl⟩, c, rfl, hco.effect hr⟩
  | error e => exact .inr ⟨nofun, e, rfl⟩

theorem tables_consistent_laid : laid.Reachable ∧ laid.Consistent ∧
    ∃ e, (Call.add ⟨1, 'Z'⟩).edit.run laid = .error e laid := by
  obtain ⟨hcon, hcalls⟩ := tables_consistent reachable_laid
  rcases hcalls (.add ⟨1, 'Z'⟩) with ⟨ha, -⟩ | ⟨-, he⟩
  · exact (ha (by decide)).elim
  · exact ⟨reachable_laid, hcon, he⟩

theorem movable_trade : laid.Movable [⟨⟨1, 'A'⟩, 1, 0⟩, ⟨⟨2, 'B'⟩, 0, 0⟩] where
  owned := by decide
  inside := by decide
  ids_nodup := by decide
  cells_nodup := by decide
  free := by
    intro p hp t ht
    rcases List.mem_cons.1 hp with rfl | hp
    · cases ht
      decide
    · obtain rfl := List.mem_singleton.1 hp
      cases ht
      decide

/-- Which batches are moved, what becomes of the board, and which error tells why another one is
not. -/
theorem move_exact (hb : b.Reachable) (ps : List Placement) :
    ((∃ c, (Edit.move ps).run b = .ok () c) ↔ b.Movable ps) ∧
    (∀ c, (Edit.move ps).run b = .ok () c → b.Relocates ps c) ∧
    (∀ qs, ps.Perm qs → ∀ c, (Edit.move ps).run b = .ok () c ↔ (Edit.move qs).run b = .ok () c) ∧
    ∀ e c, (Edit.move ps).run b = .error e c ↔ b.Spoils ps e ∧ c = b := by
  obtain ⟨hco, -⟩ := hb.coherent
  have hok (qs : List Placement) (c : Board) :
      (Edit.move qs).run b = .ok () c ↔ b.move qs = .ok c := by
    rw [hco.run_move, settled_eq_ok_iff]
  refine ⟨(exists_congr (hok ps)).trans hco.movable_iff,
    fun c h => hco.relocates_move ((hok ps c).1 h), fun qs hperm c => ?_, fun e c => ?_⟩
  · rw [hok, hok]
    exact ⟨hco.move_congr hperm, hco.move_congr hperm.symm⟩
  · rw [hco.run_move, settled_eq_error_iff, hco.move_eq_error_iff]

theorem move_exact_trade : laid.Reachable ∧ laid.order = [3] ∧ ∃ c,
    (Edit.move [⟨⟨1, 'A'⟩, 1, 0⟩, ⟨⟨2, 'B'⟩, 0, 0⟩]).run laid = .ok () c ∧
    (Edit.move [⟨⟨2, 'B'⟩, 0, 0⟩, ⟨⟨1, 'A'⟩, 1, 0⟩]).run laid = .ok () c ∧
    laid.Relocates [⟨⟨1, 'A'⟩, 1, 0⟩, ⟨⟨2, 'B'⟩, 0, 0⟩] c := by
  obtain ⟨hiff, hmoved, hperm, -⟩ :=
    move_exact reachable_laid [⟨⟨1, 'A'⟩, 1, 0⟩, ⟨⟨2, 'B'⟩, 0, 0⟩]
  obtain ⟨c, hc⟩ := hiff.2 movable_trade
  exact ⟨reachable_laid, rfl, c, hc, (hperm _ (.swap _ _ _) c).1 hc, hmoved c hc⟩

end TileRace.Board
