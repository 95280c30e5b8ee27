import TileRace.Proofs.Board.Crossword

namespace TileRace

def Direction.before : Direction → Cell → Cell → Bool
  | .across => Cell.rowBefore
  | .down => Cell.columnBefore

theorem Cell.rowBefore_iff {c d : Cell} : c.rowBefore d ↔ c.y < d.y ∨ c.y = d.y ∧ c.x < d.x := by
  simp [rowBefore]

theorem Cell.columnBefore_iff {c d : Cell} :
    c.columnBefore d ↔ c.x < d.x ∨ c.x = d.x ∧ c.y < d.y := by
  simp [columnBefore]

namespace Direction

variable {dir : Direction} {c d e : Cell}

theorem before_trans (h : dir.before c d) (h' : dir.before d e) : dir.before c e := by
  cases dir with
  | across =>
    rw [before, Cell.rowBefore_iff] at *
    omega
  | down =>
    rw [before, Cell.columnBefore_iff] at *
    omega

theorem before_asymm (h : dir.before c d) : ¬ dir.before d c := by
  cases dir with
  | across =>
    rw [before, Cell.rowBefore_iff] at *
    omega
  | down =>
    rw [before, Cell.columnBefore_iff] at *
    omega

theorem before_of_not (hne : c ≠ d) (h : ¬ dir.before c d) : dir.before d c := by
  rw [Ne, Cell.ext_iff] at hne
  cases dir with
  | across =>
    rw [before, Cell.rowBefore_iff] at *
    omega
  | down =>
    rw [before, Cell.columnBefore_iff] at *
    omega

end Direction

namespace Placement

variable {dir : Direction} {p : Placement} {ps qs : List Placement}

def Sorted (dir : Direction) (ps : List Placement) : Prop :=
  ps.Pairwise fun p q => dir.before p.cell q.cell

theorem Sorted.insert (h : Sorted dir ps) (hp : p.cell ∉ ps.map (·.cell)) :
    Sorted dir (Placement.insert dir.before p ps) := by
  induction ps with
  | nil => exact List.pairwise_singleton _ _
  | cons q ps ih =>
    obtain ⟨hq, hps⟩ := List.pairwise_cons.1 h
    obtain ⟨hne, hp⟩ := not_or.1 (mt List.mem_cons.2 hp)
    simp only [Placement.insert]
    split
    · rename_i hb
      refine List.pairwise_cons.2 ⟨fun r hr => ?_, h⟩
      rcases List.mem_cons.1 hr with rfl | hr
      · exact hb
      · exact Direction.before_trans hb (hq r hr)
    · rename_i hb
      refine List.pairwise_cons.2 ⟨fun r hr => ?_, ih hps hp⟩
      rcases List.mem_cons.1 ((insert_perm _ _ _).mem_iff.1 hr) with rfl | hr
      · exact Direction.before_of_not hne hb
      · exact hq r hr

theorem sorted_sort (dir : Direction) (h : (ps.map (·.cell)).Nodup) :
    Sorted dir (sort dir.before ps) := by
  induction ps with
  | nil => exact .nil
  | cons p ps ih =>
    obtain ⟨hp, hps⟩ := List.nodup_cons.1 h
    exact (ih hps).insert (mt (((sort_perm _ ps).map _).mem_iff).1 hp)

theorem Sorted.eq_of_perm (h : Sorted dir ps) (h' : Sorted dir qs) (hperm : ps.Perm qs) : ps = qs :=
  hperm.eq_of_pairwise (fun _ _ _ _ hpq hqp => (Direction.before_asymm hpq hqp).elim) h h'

theorem Sorted.nodup (h : Sorted dir ps) : ps.Nodup :=
  h.imp fun {p q} hlt (he : p = q) => Direction.before_asymm hlt (he ▸ hlt)

theorem sort_eq_of_perm (dir : Direction) (hcells : (qs.map (·.cell)).Nodup) (hperm : ps.Perm qs) :
    sort dir.before ps = sort dir.before qs :=
  (sorted_sort dir ((hperm.map _).nodup_iff.2 hcells)).eq_of_perm (sorted_sort dir hcells)
    ((sort_perm _ ps).trans (hperm.trans (sort_perm _ qs).symm))

end Placement

end TileRace
