import Mathlib.Data.List.Perm.Subperm
import TileRace.Board.Group
import TileRace.Proofs.Board.Crossword

namespace TileRace.Board

open Crossword Relation

/-- What holds all along a walk from a cell: the tiles seen can be reached, and so can all that
touch them, but for the cells that have still to be left. -/
structure Explores (b : Board) (start : Cell) (seen : List TileId) (todo : List Cell) : Prop where
  nodup : seen.Nodup
  reached : ∀ id ∈ seen, ∃ p ∈ b.placed, p.tile.id = id ∧
    ReflTransGen (Touch b.placed) start p.cell
  pending : ∀ c ∈ todo, Occupied b.placed c ∧ ReflTransGen (Touch b.placed) start c
  closed : ∀ p ∈ b.placed, p.tile.id ∈ seen → p.cell ∉ todo → ∀ q ∈ b.placed,
    p.cell.Adjacent q.cell → q.tile.id ∈ seen

variable {b : Board} {start c d : Cell} {seen : List TileId} {todo : List Cell} {w : Walk}
  {p q : Placement}

theorem length_visit (b : Board) (w : Walk) (d : Cell) :
    (b.visit w d).stack.length + w.seen.length = w.stack.length + (b.visit w d).seen.length := by
  rw [visit]
  split
  · split
    · rfl
    · simp only [List.length_cons]
      omega
  · rfl

theorem length_foldl_visit (b : Board) (w : Walk) (ds : List Cell) :
    (ds.foldl b.visit w).stack.length + w.seen.length =
      w.stack.length + (ds.foldl b.visit w).seen.length := by
  induction ds generalizing w with
  | nil => rfl
  | cons d ds ih =>
    have h := ih (b.visit w d)
    have hd := length_visit b w d
    rw [List.foldl_cons]
    omega

theorem mem_seen_visit (w : Walk) (d : Cell) {id : TileId} (h : id ∈ w.seen) :
    id ∈ (b.visit w d).seen := by
  rw [visit]
  split
  · split
    · exact h
    · exact List.mem_cons_of_mem _ h
  · exact h

theorem mem_seen_foldl (ds : List Cell) {id : TileId} (h : id ∈ w.seen) :
    id ∈ (ds.foldl b.visit w).seen := by
  induction ds generalizing w with
  | nil => exact h
  | cons d ds ih => exact ih (mem_seen_visit w d h)

theorem Coherent.visit_noted (hb : b.Coherent) (w : Walk) (hp : p ∈ b.placed) :
    p.tile.id ∈ (b.visit w p.cell).seen := by
  rw [visit, hb.tileAt_of_mem hp]
  simp only
  split
  · assumption
  · exact List.mem_cons_self

theorem Coherent.foldl_noted (hb : b.Coherent) {ds : List Cell} (hp : p ∈ b.placed)
    (h : p.cell ∈ ds) : p.tile.id ∈ (ds.foldl b.visit w).seen := by
  induction ds generalizing w with
  | nil => cases h
  | cons d ds ih =>
    obtain rfl | h := List.mem_cons.1 h
    · exact mem_seen_foldl ds (hb.visit_noted w hp)
    · exact ih h

theorem Explores.visit (hb : b.Coherent) (h : b.Explores start w.seen (c :: w.stack))
    (hcd : c.Adjacent d) :
    b.Explores start (b.visit w d).seen (c :: (b.visit w d).stack) := by
  rw [Board.visit]
  split
  · rename_i t ht
    split
    · exact h
    rename_i hnew
    obtain ⟨p, hp, rfl, rfl⟩ := hb.mem_of_tileAt ht
    obtain ⟨hc, hreach⟩ := h.pending c List.mem_cons_self
    have hp' : ReflTransGen (Touch b.placed) start p.cell :=
      hreach.tail ⟨hc, ⟨p, hp, rfl⟩, hcd⟩
    refine ⟨List.nodup_cons.2 ⟨hnew, h.nodup⟩, ?_, ?_, ?_⟩
    · intro id hid
      obtain rfl | hid := List.mem_cons.1 hid
      · exact ⟨p, hp, rfl, hp'⟩
      · exact h.reached id hid
    · intro e he
      obtain rfl | he := List.mem_cons.1 he
      · exact ⟨hc, hreach⟩
      obtain rfl | he := List.mem_cons.1 he
      · exact ⟨⟨p, hp, rfl⟩, hp'⟩
      · exact h.pending e (List.mem_cons_of_mem _ he)
    · intro q hq hseen htodo r hr hadj
      -- a tile that has just been seen is still to be left
      obtain hid | hseen := List.mem_cons.1 hseen
      · exact (htodo (by simp [hb.eq_of_id_eq hq hp hid])).elim
      · refine List.mem_cons_of_mem _ (h.closed q hq hseen (fun hm => htodo ?_) r hr hadj)
        obtain he | hm := List.mem_cons.1 hm
        · exact he ▸ List.mem_cons_self
        · exact List.mem_cons_of_mem _ (List.mem_cons_of_mem _ hm)
  · exact h

theorem Explores.foldl_visit (hb : b.Coherent) (h : b.Explores start w.seen (c :: w.stack))
    (ds : List Cell) (hds : ∀ d ∈ ds, c.Adjacent d) :
    b.Explores start (ds.foldl b.visit w).seen (c :: (ds.foldl b.visit w).stack) := by
  induction ds generalizing w with
  | nil => exact h
  | cons d ds ih =>
    exact ih (h.visit hb (hds d List.mem_cons_self)) fun e he => hds e (List.mem_cons_of_mem _ he)

theorem Explores.leave (hb : b.Coherent) (h : b.Explores start w.seen (c :: w.stack)) :
    b.Explores start ([c.left, c.right, c.above, c.below].foldl b.visit w).seen
      ([c.left, c.right, c.above, c.below].foldl b.visit w).stack := by
  have h' := h.foldl_visit hb [c.left, c.right, c.above, c.below] fun d hd => adjacent_iff.2 hd
  refine ⟨h'.nodup, h'.reached, fun d hd => h'.pending d (List.mem_cons_of_mem _ hd), ?_⟩
  intro p hp hseen htodo q hq hadj
  by_cases hpc : p.cell = c
  · exact hb.foldl_noted hq (adjacent_iff.1 (hpc ▸ hadj))
  · exact h'.closed p hp hseen (fun hm => (List.mem_cons.1 hm).elim hpc htodo) q hq hadj

theorem Explores.subperm (h : b.Explores start seen todo) :
    seen.Subperm (b.placed.map (·.tile.id)) := by
  refine List.subperm_of_subset h.nodup fun id hid => ?_
  obtain ⟨p, hp, rfl, -⟩ := h.reached id hid
  exact List.mem_map.2 ⟨p, hp, rfl⟩

theorem Explores.length_le (h : b.Explores start seen todo) : seen.length ≤ b.used.size := by
  have hle := h.subperm.length_le
  rwa [List.length_map, length_placed] at hle

/-- A walk with enough fuel leaves no cell over: each cell left takes a unit of it, and of the
tiles each comes up but once. -/
theorem Explores.walk (hb : b.Coherent) {n : Nat} (h : b.Explores start w.seen w.stack)
    (hn : w.stack.length + b.used.size ≤ n + w.seen.length) :
    b.Explores start (b.walk n w).seen [] ∧ ∀ id ∈ w.seen, id ∈ (b.walk n w).seen := by
  induction n generalizing w with
  | zero =>
    have hle := h.length_le
    have hs : w.stack = [] := List.length_eq_zero_iff.1 (by omega)
    exact ⟨hs ▸ h, fun _ hid => hid⟩
  | succ n ih =>
    rw [Board.walk]
    split
    · rename_i hs
      exact ⟨hs ▸ h, fun _ hid => hid⟩
    · rename_i c rest hs
      rw [hs] at h hn
      have hlen := length_foldl_visit b ⟨w.seen, rest⟩ [c.left, c.right, c.above, c.below]
      rw [List.length_cons] at hn
      obtain ⟨hw, hsub⟩ := ih (Explores.leave (w := ⟨w.seen, rest⟩) hb h) (by
        simp only at hlen
        omega)
      exact ⟨hw, fun id hid => hsub id (mem_seen_foldl (w := ⟨w.seen, rest⟩) _ hid)⟩

theorem Explores.mem_of_reached (h : b.Explores start seen []) (hp : p ∈ b.placed)
    (hstart : p.cell = start) (hseen : p.tile.id ∈ seen) (hb : b.Coherent) (hq : q ∈ b.placed)
    (hreach : ReflTransGen (Touch b.placed) start q.cell) : q.tile.id ∈ seen := by
  generalize hd : q.cell = d at hreach
  induction hreach generalizing q with
  | refl => rwa [hb.eq_of_cell_eq hq hp (hd.trans hstart.symm)]
  | tail _ htouch ih =>
    obtain ⟨⟨r, hr, rfl⟩, -, hadj⟩ := htouch
    exact h.closed r hr (ih hr rfl) List.not_mem_nil q hq (hd ▸ hadj)

theorem Explores.length_eq_iff (hb : b.Coherent) (h : b.Explores start seen todo) :
    seen.length = b.used.size ↔ ∀ p ∈ b.placed, p.tile.id ∈ seen := by
  constructor
  · intro hlen p hp
    have hle : (b.placed.map (·.tile.id)).length ≤ seen.length :=
      Nat.le_of_eq (by rw [List.length_map, length_placed, hlen])
    exact (h.subperm.perm_of_length_le hle).mem_iff.2 (List.mem_map.2 ⟨p, hp, rfl⟩)
  · intro hall
    have hsub : (b.placed.map (·.tile.id)).Subperm seen := by
      refine List.subperm_of_subset hb.placed_ids_nodup fun id hid => ?_
      obtain ⟨p, hp, rfl⟩ := List.mem_map.1 hid
      exact hall p hp
    have hle := hsub.length_le
    rw [List.length_map, length_placed] at hle
    exact Nat.le_antisymm h.length_le hle

theorem connected_iff (hp : p ∈ b.placed) : Connected b.placed ↔
    ∀ q ∈ b.placed, ReflTransGen (Touch b.placed) p.cell q.cell := by
  refine ⟨fun h => h p hp, fun h q hq r hr => ?_⟩
  exact (symm (h q hq)).trans (h r hr)

theorem Coherent.explores_start (hb : b.Coherent) (hp : p ∈ b.placed) :
    b.Explores p.cell [p.tile.id] [p.cell] := by
  refine ⟨List.nodup_singleton _, ?_, ?_, ?_⟩
  · intro id hid
    exact ⟨p, hp, (List.mem_singleton.1 hid).symm, .refl⟩
  · intro c hc
    rw [List.mem_singleton.1 hc]
    exact ⟨⟨p, hp, rfl⟩, .refl⟩
  · intro q hq hseen htodo
    rw [hb.eq_of_id_eq hq hp (List.mem_singleton.1 hseen)] at htodo
    exact (htodo (List.mem_singleton.2 rfl)).elim

theorem Coherent.walk_length_iff (hb : b.Coherent) (hp : p ∈ b.placed) :
    (b.walk b.used.size ⟨[p.tile.id], [p.cell]⟩).seen.length = b.used.size ↔
      Connected b.placed := by
  obtain ⟨h, hsub⟩ := Explores.walk (w := ⟨[p.tile.id], [p.cell]⟩) hb (hb.explores_start hp)
    (n := b.used.size) (by simp [Nat.add_comm])
  rw [h.length_eq_iff hb, connected_iff hp]
  constructor
  · intro hall q hq
    obtain ⟨r, hr, hid, hreach⟩ := h.reached _ (hall q hq)
    rwa [hb.eq_of_id_eq hr hq hid] at hreach
  · intro hall q hq
    exact h.mem_of_reached hp rfl (hsub _ (List.mem_singleton.2 rfl)) hb hq (hall q hq)

theorem Coherent.isSingleGroup_iff (hb : b.Coherent) :
    b.isSingleGroup ↔ b.hand = [] ∧ b.placed ≠ [] ∧ Connected b.placed := by
  rw [isSingleGroup, Bool.and_eq_true, decide_eq_true_eq, hb.hand_eq_nil_iff]
  refine and_congr_right fun _ => ?_
  have hperm := b.placed_perm
  split
  · rename_i hv
    rw [hv] at hperm
    simp [hperm.eq_nil]
  · rename_i p ps hv
    have hp : p ∈ b.placed := hperm.mem_iff.2 (hv ▸ List.mem_cons_self)
    rw [decide_eq_true_eq, hb.walk_length_iff hp]
    exact ⟨fun h => ⟨List.ne_nil_of_mem hp, h⟩, fun h => h.2⟩

/-- With all tiles placed, a walk from any of them tells whether they are a single group. -/
theorem Coherent.walk_length_iff_isSingleGroup (hb : b.Coherent) (hu : b.unused.size = 0)
    (hp : p ∈ b.placed) : (b.walk b.used.size ⟨[p.tile.id], [p.cell]⟩).seen.length = b.used.size ↔
      b.isSingleGroup := by
  rw [hb.walk_length_iff hp, hb.isSingleGroup_iff, hb.hand_eq_nil_iff]
  exact ⟨fun h => ⟨hu, List.ne_nil_of_mem hp, h⟩, fun h => h.2.2⟩

end TileRace.Board
