import TileRace.Proofs.Board.Connected
import TileRace.Proofs.Board.Resizing
import TileRace.Proofs.Board.Runs

namespace TileRace.Board

open Crossword

/-- A way to walk over the placed tiles of a board, in whatever order they come up. -/
structure Roll where
  list : Board → List Placement
  perm : ∀ b, (list b).Perm b.used.values

structure View where
  grid : Grid
  hand : List Tile
  placed : List Placement
  tileAt : Cell → Option Tile
  words : List String
  group : Bool

def view (b : Board) (vs : List Placement) : View :=
  let placed := Placement.sort Cell.rowBefore vs
  { grid := b.grid
    hand := b.hand
    placed := placed
    tileAt := b.tileAt
    words := b.runs Cell.right Cell.left placed ++
      b.runs Cell.below Cell.above (Placement.sort Cell.columnBefore placed)
    group := b.unused.size = 0 && match vs with
      | [] => false
      | p :: _ => (b.walk b.used.size ⟨[p.tile.id], [p.cell]⟩).seen.length = b.used.size }

namespace Call

def answer (vs : List Placement) : Call → Edit (List Tile)
  | .add t => do
    Edit.add t
    return []
  | .remove t => do
    Edit.remove t
    return []
  | .move ps => do
    Edit.move ps
    return []
  | .resize g => Edit.resizeFrom vs g

def moved (b : Board) : Call → List Tile
  | .resize g => (b.resize g).2
  | _ => []

end Call

/-- The answers to some calls, and the board in the end. At each call the placed tiles come up in an
order of its own. -/
def play (b : Board) : List (Call × Roll) → List (Except BoardError (List Tile)) × Board
  | [] => ([], b)
  | (call, r) :: calls => match (call.answer (r.list b)).run b with
    | .ok moved c => (.ok moved :: (c.play calls).1, (c.play calls).2)
    | .error e c => (.error e :: (c.play calls).1, (c.play calls).2)

/-- Two boards that answer alike to all calls and show the same after them, in whatever orders their
placed tiles come up. -/
def Alike (b c : Board) : Prop := ∀ (calls : List (Call × Roll × Roll)) (r r' : Roll),
  let left := b.play (calls.map fun e => (e.1, e.2.1))
  let right := c.play (calls.map fun e => (e.1, e.2.2))
  left.1 = right.1 ∧ left.2.view (r.list left.2) = right.2.view (r'.list right.2)

variable {b c : Board} {ps vs ws : List Placement} {ts : List Tile}

theorem Coherent.view_eq (hb : b.Coherent) (hvs : vs.Perm b.used.values) :
    b.view vs = ⟨b.grid, b.hand, b.placed, b.tileAt, b.words, b.isSingleGroup⟩ := by
  have hgroup : (b.view vs).group = b.isSingleGroup := by
    cases vs with
    | nil => simp [view, isSingleGroup, List.nil_perm.1 hvs]
    | cons p vs =>
      have hp : p ∈ b.placed := b.placed_perm.mem_iff.2 (hvs.mem_iff.1 List.mem_cons_self)
      by_cases hu : b.unused.size = 0
      · simp [view, hu, hb.walk_length_iff_isSingleGroup hu hp]
      · simp [view, hu, isSingleGroup]
  rw [← hgroup]
  simp only [view, hb.sort_eq_placed hvs]
  rfl

theorem Coherent.run_answer (hb : b.Coherent) (hvs : vs.Perm b.used.values) (call : Call) :
    (call.answer vs).run b = match call.result b with
      | .ok c => .ok (call.moved b) c
      | .error e => .error e b := by
  cases call with
  | add t =>
    rw [Call.answer, EStateM.run_bind, run_add, Call.result]
    cases b.add t <;> rfl
  | remove t =>
    rw [Call.answer, EStateM.run_bind, hb.run_remove, Call.result]
    cases b.remove t <;> rfl
  | move ps =>
    rw [Call.answer, EStateM.run_bind, hb.run_move, Call.result]
    cases b.move ps <;> rfl
  | resize g => exact hb.run_resizeFrom hvs g

theorem Coherent.of_play (hb : b.Coherent) (hin : b.Inside) (calls : List (Call × Roll)) :
    (b.play calls).2.Coherent := by
  induction calls generalizing b with
  | nil => exact hb
  | cons e calls ih =>
    obtain ⟨call, r⟩ := e
    rw [play, hb.run_answer (r.perm b)]
    cases hr : call.result b with
    | error e => exact ih hb hin
    | ok c =>
      obtain ⟨hc, hcin⟩ := hb.of_result hin hr
      exact ih hc hcin

theorem Coherent.play_eq (hb : b.Coherent) (hin : b.Inside) (calls : List (Call × Roll × Roll)) :
    b.play (calls.map fun e => (e.1, e.2.1)) = b.play (calls.map fun e => (e.1, e.2.2)) := by
  induction calls generalizing b with
  | nil => rfl
  | cons e calls ih =>
    obtain ⟨call, r, r'⟩ := e
    simp only [List.map_cons, play, hb.run_answer (r.perm b), hb.run_answer (r'.perm b)]
    cases hr : call.result b with
    | error e => simp only [ih hb hin]
    | ok c =>
      obtain ⟨hc, hcin⟩ := hb.of_result hin hr
      simp only [ih hc hcin]

theorem Coherent.alike_self (hb : b.Coherent) (hin : b.Inside) : b.Alike b := by
  intro calls r r'
  have hend := hb.of_play hin (calls.map fun e => (e.1, e.2.2))
  simp only [hb.play_eq hin calls, hend.view_eq (r.perm _), hend.view_eq (r'.perm _), and_self]

theorem Coherent.id_not_placed (hb : b.Coherent) {t : Tile} (ht : t ∈ b.hand) :
    t.id ∉ b.placed.map (·.tile.id) :=
  hb.used_eq_none_iff.1 (hb.apart (hb.mem_hand.1 ht))

theorem Coherent.filter_hand (hb : b.Coherent) (hperm : ts.Perm b.tiles) (hhand : b.hand.Sublist ts) :
    ts.filter (·.id ∉ b.placed.map (·.tile.id)) = b.hand := by
  have hkeep : b.hand.filter (·.id ∉ b.placed.map (·.tile.id)) = b.hand :=
    List.filter_eq_self.2 fun t ht => decide_eq_true (hb.id_not_placed ht)
  have hdrop : (b.placed.map (·.tile)).filter (·.id ∉ b.placed.map (·.tile.id)) = [] := by
    refine List.filter_eq_nil_iff.2 fun t ht => ?_
    obtain ⟨p, hp, rfl⟩ := List.mem_map.1 ht
    simpa using ⟨p, hp, rfl⟩
  have hlen := (hperm.filter (·.id ∉ b.placed.map (·.tile.id))).length_eq
  rw [tiles, List.filter_append, hkeep, hdrop, List.append_nil] at hlen
  have hsub := hhand.filter (·.id ∉ b.placed.map (·.tile.id))
  rw [hkeep] at hsub
  exact (hsub.eq_of_length hlen.symm).symm

theorem Coherent.movable_placed (hb : b.Coherent) (hin : b.Inside) (hc : c.Coherent)
    (hgrid : c.grid = b.grid) (hperm : c.tiles.Perm b.tiles) (hplaced : c.placed = []) :
    c.Movable b.placed where
  owned p hp := by
    rw [← hc.mem_tiles, hperm.mem_iff, tiles, List.mem_append]
    exact .inr (List.mem_map.2 ⟨p, hp, rfl⟩)
  inside p hp := hgrid ▸ hin p hp
  ids_nodup := hb.placed_ids_nodup
  cells_nodup := hb.placed_cells_nodup
  free p _ t ht := by
    obtain ⟨q, hq, -⟩ := hc.mem_of_tileAt ht
    rw [hplaced] at hq
    cases hq

/-- A board is known from its grid, from the order of the hand and from where the placed tiles lie. -/
theorem Coherent.eq_of_relocates {made : Board} (hb : b.Coherent) (hc : c.Coherent)
    (hmade : made.Coherent) (hgrid : made.grid = b.grid) (hperm : made.hand.Perm b.tiles)
    (hhand : b.hand.Sublist made.hand) (hplaced : made.placed = [])
    (h : made.Relocates b.placed c) : c = b := by
  refine hb.eq_of_tables hc (h.grid.trans hgrid) ?_ (fun id => ?_) fun id => ?_
  · rw [h.order, ← hmade.hand_ids, ← hb.hand_ids, ← hb.filter_hand hperm hhand, List.filter_map]
    rfl
  · by_cases hid : id ∈ b.placed.map (·.tile.id)
    · obtain ⟨p, hp, rfl⟩ := List.mem_map.1 hid
      rw [(h.moved p hp).2.1, hb.unused_of_used (hb.mem_placed.1 hp)]
    · rw [(h.others id hid).2]
      refine Option.ext fun t => ?_
      rw [hmade.unused_eq_some_iff, hb.unused_eq_some_iff, hperm.mem_iff, tiles, List.mem_append]
      refine and_congr_left fun ht => or_iff_left fun hm => hid ?_
      obtain ⟨p, hp, rfl⟩ := List.mem_map.1 hm
      exact List.mem_map.2 ⟨p, hp, ht⟩
  · by_cases hid : id ∈ b.placed.map (·.tile.id)
    · obtain ⟨p, hp, rfl⟩ := List.mem_map.1 hid
      rw [(h.moved p hp).1, hb.mem_placed.1 hp]
    · rw [(h.others id hid).1, hb.used_eq_none_iff.2 hid, hmade.used_eq_none_iff, hplaced]
      exact List.not_mem_nil

theorem Coherent.restores (hb : b.Coherent) (hin : b.Inside) (hperm : ts.Perm b.tiles)
    (hhand : b.hand.Sublist ts) :
    ∃ made, Board.ofTiles b.grid ts = .ok made ∧ (Edit.move b.placed).run made = .ok () b := by
  obtain ⟨made, hmade, hco, rfl, hplaced, hgrid⟩ :=
    Coherent.ofTiles b.grid ((hperm.map _).nodup_iff.2 hb.tiles_ids_nodup)
  have htiles : made.tiles = made.hand := by rw [tiles, hplaced, List.map_nil, List.append_nil]
  obtain ⟨c, hc⟩ := hco.movable_iff.2
    (hb.movable_placed hin hco hgrid (htiles.symm ▸ hperm) hplaced)
  obtain rfl := hb.eq_of_relocates (hco.move hc) hco hgrid hperm hhand hplaced (hco.relocates_move hc)
  exact ⟨made, hmade, by rw [hco.run_move, hc, settled]⟩

/-- A board made of the tiles of another, with those of the hand in their order, on which the placed
tiles are laid as they lay there, is as good as the other. -/
theorem snapshot_restores (hb : b.Reachable) (hperm : ts.Perm b.tiles) (hhand : b.hand.Sublist ts) :
    ∃ made c, ofTiles b.grid ts = .ok made ∧ (Edit.move b.placed).run made = .ok () c ∧
      c.Reachable ∧ b.Alike c := by
  obtain ⟨hco, hin⟩ := hb.coherent
  obtain ⟨made, hmade, hmove⟩ := hco.restores hin hperm hhand
  exact ⟨made, b, hmade, hmove, hb, hco.alike_self hin⟩

theorem snapshot_restores_laid : laid.Reachable ∧ ∃ made c,
    ofTiles laid.grid [⟨2, 'B'⟩, ⟨3, 'C'⟩, ⟨1, 'A'⟩] = .ok made ∧
    (Edit.move [⟨⟨1, 'A'⟩, 0, 0⟩, ⟨⟨2, 'B'⟩, 1, 0⟩]).run made = .ok () c ∧
    c.Reachable ∧ laid.Alike c := by
  have hperm : [⟨2, 'B'⟩, ⟨3, 'C'⟩, ⟨1, 'A'⟩].Perm laid.tiles := by decide +kernel
  have hhand : laid.hand.Sublist [⟨2, 'B'⟩, ⟨3, 'C'⟩, ⟨1, 'A'⟩] := by decide +kernel
  exact ⟨reachable_laid, snapshot_restores reachable_laid hperm hhand⟩

end TileRace.Board
