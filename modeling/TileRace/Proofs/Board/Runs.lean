import Mathlib.Data.List.Nodup
import Mathlib.Data.List.Perm.Subperm
import TileRace.Board.Words
import TileRace.Proofs.Board.Crossword

namespace TileRace.Board

open Crossword

variable {b : Board} {dir : Direction} {c : Cell} {n : Nat} {word : String} {ps : List Placement}

theorem letters_eq {l : List Char}
    (hl : ∀ i (h : i < l.length), (b.tileAt (c.along dir i)).map (·.letter) = some l[i])
    (hend : b.tileAt (c.along dir l.length) = none) (hn : l.length ≤ n) :
    b.letters (·.along dir 1) n c = l := by
  induction l generalizing n c with
  | nil =>
    cases n with
    | zero => rfl
    | succ n =>
      have hc : b.tileAt c = none := by simpa [along_zero] using hend
      rw [letters, hc]
  | cons a l ih =>
    obtain ⟨n, rfl⟩ : ∃ k, n = k + 1 := ⟨n - 1, by rw [List.length_cons] at hn; omega⟩
    have hc := hl 0 (by simp)
    rw [Int.natCast_zero, along_zero] at hc
    obtain ⟨t, ht, rfl⟩ := Option.map_eq_some_iff.1 hc
    have hstep (i : Nat) : (c.along dir 1).along dir i = c.along dir ((i + 1 : Nat) : Int) := by
      rw [along_along]
      congr 1
      omega
    rw [letters, ht]
    refine congrArg _ (ih (fun i h => ?_) ?_ (by rw [List.length_cons] at hn; omega))
    · rw [hstep]
      exact hl (i + 1) (by simpa using h)
    · rw [hstep]
      exact hend

theorem letters_length_le (b : Board) (next : Cell → Cell) (n : Nat) (c : Cell) :
    (b.letters next n c).length ≤ n := by
  induction n generalizing c with
  | zero => exact Nat.le_refl 0
  | succ n ih =>
    rw [letters]
    split
    · exact Nat.succ_le_succ (ih _)
    · exact Nat.zero_le _

theorem letters_shows (b : Board) (dir : Direction) (n : Nat) (c : Cell) (i : Nat)
    (h : i < (b.letters (·.along dir 1) n c).length) :
    (b.tileAt (c.along dir i)).map (·.letter) = some (b.letters (·.along dir 1) n c)[i] := by
  induction n generalizing c i with
  | zero => cases h
  | succ n ih =>
    cases hc : b.tileAt c with
    | none => simp [letters, hc] at h
    | some t =>
      simp only [letters, hc] at h ⊢
      cases i with
      | zero => simp [along_zero, hc]
      | succ i =>
        have hi := ih (c.along dir 1) i (by simpa using h)
        rw [along_along, Int.add_comm] at hi
        simpa using hi

theorem letters_end (h : (b.letters (·.along dir 1) n c).length < n) :
    b.tileAt (c.along dir (b.letters (·.along dir 1) n c).length) = none := by
  induction n generalizing c with
  | zero => cases h
  | succ n ih =>
    cases hc : b.tileAt c with
    | none => simp [letters, hc, along_zero]
    | some t =>
      simp only [letters, hc, List.length_cons] at h ⊢
      have hn := ih (c := c.along dir 1) (by omega)
      rw [along_along, Int.add_comm] at hn
      simpa using hn

theorem length_le_of_occupied (c : Cell) (dir : Direction)
    (h : ∀ i : Nat, i < n → Occupied b.placed (c.along dir i)) : n ≤ b.used.size := by
  have hnodup : ((List.range n).map fun i : Nat => c.along dir i).Nodup :=
    List.nodup_range.map fun i j hij => Int.ofNat_inj.1 (along_inj.1 hij)
  have hsub : ((List.range n).map fun i : Nat => c.along dir i).Subperm
      (b.placed.map Placement.cell) := by
    refine List.subperm_of_subset hnodup fun d hd => ?_
    obtain ⟨i, hi, rfl⟩ := List.mem_map.1 hd
    obtain ⟨p, hp, hc⟩ := h i (List.mem_range.1 hi)
    exact List.mem_map.2 ⟨p, hp, hc⟩
  simpa [b.placed_perm.length_eq, Table.values, Table.size] using hsub.length_le

theorem Coherent.letters_end (hb : b.Coherent) (dir : Direction) (c : Cell) :
    b.tileAt (c.along dir (b.letters (·.along dir 1) b.used.size c).length) = none := by
  obtain hlt | heq := Nat.lt_or_eq_of_le (b.letters_length_le (·.along dir 1) b.used.size c)
  · exact Board.letters_end hlt
  -- with the fuel used up, one more tile in the row would be one more than there are
  · rw [← not_occupied_iff hb]
    intro hocc
    refine Nat.not_succ_le_self b.used.size (length_le_of_occupied c dir fun i hi => ?_)
    obtain hi | rfl := Nat.lt_or_eq_of_le (Nat.le_of_lt_succ hi)
    · have hs := b.letters_shows dir b.used.size c i (by rwa [heq])
      obtain ⟨t, ht, -⟩ := Option.map_eq_some_iff.1 hs
      exact (occupied_iff hb).2 ⟨t, ht⟩
    · rwa [heq] at hocc

theorem Coherent.run_iff (hb : b.Coherent) : Run b.placed dir c word ↔
    b.tileAt (c.along dir (-1)) = none ∧ 2 ≤ word.toList.length ∧
      b.letters (·.along dir 1) b.used.size c = word.toList := by
  constructor
  · rintro ⟨htwo, hshows, hbefore, hafter⟩
    refine ⟨(not_occupied_iff hb).1 hbefore, htwo, letters_eq (fun i h => ?_) ?_ ?_⟩
    · exact (shows_iff hb).1 (hshows i h)
    · exact (not_occupied_iff hb).1 hafter
    · refine length_le_of_occupied c dir fun i h => ?_
      obtain ⟨p, hp, hc, -⟩ := hshows i h
      exact ⟨p, hp, hc⟩
  · rintro ⟨hbefore, htwo, hword⟩
    refine ⟨htwo, fun i h => ?_, (not_occupied_iff hb).2 hbefore, (not_occupied_iff hb).2 ?_⟩
    · simp only [← hword] at h ⊢
      exact (shows_iff hb).2 (b.letters_shows dir b.used.size c i h)
    · rw [← hword]
      exact hb.letters_end dir c

def starts (b : Board) (dir : Direction) (ps : List Placement) : List Placement :=
  ps.filter fun p => (b.tileAt (p.cell.along dir (-1))).isNone ∧
    2 ≤ (b.letters (·.along dir 1) b.used.size p.cell).length

theorem runs_eq (b : Board) (dir : Direction) (ps : List Placement) :
    b.runs (·.along dir 1) (·.along dir (-1)) ps =
      (b.starts dir ps).map fun p =>
        String.ofList (b.letters (·.along dir 1) b.used.size p.cell) := by
  simp only [runs, starts, List.filter_map, List.map_map, List.filter_filter]
  congr 1
  refine List.filter_congr fun p _ => ?_
  simp only [Function.comp_apply, Bool.and_comm, Bool.decide_and, Bool.decide_coe]

theorem Coherent.run_iff_starts (hb : b.Coherent) (hps : ps.Perm b.placed) :
    Run b.placed dir c word ↔ ∃ p ∈ b.starts dir ps, p.cell = c ∧
      String.ofList (b.letters (·.along dir 1) b.used.size p.cell) = word := by
  simp only [starts, List.mem_filter, hps.mem_iff, decide_eq_true_eq, Option.isNone_iff_eq_none]
  constructor
  · intro h
    obtain ⟨p, hp, hc, -⟩ := h.shows 0 (Nat.lt_of_lt_of_le Nat.zero_lt_two h.two_le)
    obtain rfl : p.cell = c := by simpa [along_zero] using hc
    obtain ⟨hbefore, htwo, hword⟩ := hb.run_iff.1 h
    exact ⟨p, ⟨hp, hbefore, hword ▸ htwo⟩, rfl, by rw [hword, String.ofList_toList]⟩
  · rintro ⟨p, ⟨-, hbefore, htwo⟩, rfl, rfl⟩
    exact hb.run_iff.2 ⟨hbefore, by rwa [String.toList_ofList], by rw [String.toList_ofList]⟩

theorem Coherent.mem_runs (hb : b.Coherent) (hps : ps.Perm b.placed) :
    word ∈ b.runs (·.along dir 1) (·.along dir (-1)) ps ↔ ∃ c, Run b.placed dir c word := by
  simp only [runs_eq, List.mem_map, hb.run_iff_starts hps]
  constructor
  · rintro ⟨p, hp, hw⟩
    exact ⟨p.cell, p, hp, rfl, hw⟩
  · rintro ⟨_, p, hp, -, hw⟩
    exact ⟨p, hp, hw⟩

theorem Coherent.runs_nodup_iff (hb : b.Coherent) (dir : Direction) (hps : ps.Perm b.placed) :
    (b.runs (·.along dir 1) (·.along dir (-1)) ps).Nodup ↔
      ∀ c c' word, Run b.placed dir c word → Run b.placed dir c' word → c = c' := by
  have hnodup : (b.starts dir ps).Nodup :=
    (hps.nodup_iff.2 (List.Nodup.of_map _ hb.placed_ids_nodup)).filter _
  rw [runs_eq, List.nodup_map_iff_inj_on hnodup]
  simp only [hb.run_iff_starts hps]
  constructor
  · rintro h _ _ word ⟨p, hp, rfl, hw⟩ ⟨q, hq, rfl, hw'⟩
    rw [h p hp q hq (hw.trans hw'.symm)]
  · intro h p hp q hq hw
    have hmem {r} (hr : r ∈ b.starts dir ps) : r ∈ b.placed :=
      hps.mem_iff.1 (List.mem_of_mem_filter hr)
    exact hb.eq_of_cell_eq (hmem hp) (hmem hq)
      (h _ _ _ ⟨p, hp, rfl, rfl⟩ ⟨q, hq, rfl, hw.symm⟩)

theorem words_eq (b : Board) : b.words =
    b.runs (·.along .across 1) (·.along .across (-1)) b.placed ++
      b.runs (·.along .down 1) (·.along .down (-1))
        (Placement.sort Cell.columnBefore b.placed) := rfl

theorem Coherent.mem_words (hb : b.Coherent) :
    word ∈ b.words ↔ ∃ dir c, Run b.placed dir c word := by
  rw [words_eq, List.mem_append, hb.mem_runs (.refl _), hb.mem_runs (Placement.sort_perm _ _)]
  constructor
  · rintro (h | h)
    · exact ⟨.across, h⟩
    · exact ⟨.down, h⟩
  · rintro ⟨dir, h⟩
    cases dir with
    | across => exact .inl h
    | down => exact .inr h

theorem Coherent.words_nodup_iff (hb : b.Coherent) : b.words.Nodup ↔
    ∀ dir c dir' c' word, Run b.placed dir c word → Run b.placed dir' c' word →
      dir = dir' ∧ c = c' := by
  have hacross := hb.runs_nodup_iff .across (.refl b.placed)
  have hdown := hb.runs_nodup_iff .down (Placement.sort_perm Cell.columnBefore b.placed)
  rw [words_eq, List.nodup_append, hacross, hdown]
  simp only [hb.mem_runs (.refl _), hb.mem_runs (Placement.sort_perm _ _)]
  constructor
  · rintro ⟨ha, hd, hapart⟩ dir c dir' c' word h h'
    cases dir with
    | across => cases dir' with
      | across => exact ⟨rfl, ha c c' word h h'⟩
      | down => exact (hapart word ⟨c, h⟩ word ⟨c', h'⟩ rfl).elim
    | down => cases dir' with
      | across => exact (hapart word ⟨c', h'⟩ word ⟨c, h⟩ rfl).elim
      | down => exact ⟨rfl, hd c c' word h h'⟩
  · intro h
    refine ⟨fun c c' word hc hc' => (h _ c _ c' word hc hc').2,
      fun c c' word hc hc' => (h _ c _ c' word hc hc').2, ?_⟩
    rintro word ⟨c, hc⟩ _ ⟨c', hc'⟩ rfl
    cases (h _ _ _ _ _ hc hc').1

end TileRace.Board
