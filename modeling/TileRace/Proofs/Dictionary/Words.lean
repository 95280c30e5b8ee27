import Mathlib.Data.List.Sort
import Mathlib.Data.List.TakeWhile
import Mathlib.Data.Set.Card
import TileRace.Dictionary

namespace TileRace.Dictionary

/-- What a line feed ends, or the end of the text where something stands after the last one. -/
def LineOf (text line : List Char) : Prop :=
  '\n' ∉ line ∧ ∃ before after, text = before ++ line ++ after ∧
    (before = [] ∨ ['\n'] <:+ before) ∧ (['\n'] <+: after ∨ after = [] ∧ line ≠ [])

def Word (w : List Char) : Prop := w ≠ [] ∧ ∀ c ∈ w, c.isAlpha

def Blanks (cs : List Char) : Prop := ∀ c ∈ cs, Text.isBlank c

/-- Some line of the text holds the word, in whatever case, with nothing but blanks around it. -/
def Listed (text w : List Char) : Prop :=
  ∃ line, LineOf text line ∧ ∃ before v after, line = before ++ v ++ after ∧
    Blanks before ∧ Blanks after ∧ v.map Char.toUpper = w.map Char.toUpper

theorem lines_induction {P : List Char → Prop} (last : ∀ line, '\n' ∉ line → P line)
    (line : ∀ line rest, '\n' ∉ line → P rest → P (line ++ '\n' :: rest)) (text : List Char) :
    P text := by
  induction hn : text.length using Nat.strong_induction_on generalizing text with
  | h n ih =>
    by_cases hmem : '\n' ∈ text
    · obtain ⟨l, rest, rfl, hl⟩ := List.eq_append_cons_of_mem hmem
      exact line l rest hl (ih rest.length (by simp at hn; omega) rest rfl)
    · exact last text hmem

theorem linesOf_last {line : List Char} (h : '\n' ∉ line) : linesOf line = [line] :=
  List.splitOn_eq_singleton h

theorem linesOf_append (text rest : List Char) :
    linesOf (text ++ '\n' :: rest) = linesOf text ++ linesOf rest :=
  List.splitOn_append_cons_self text rest

theorem linesOf_line {line : List Char} (h : '\n' ∉ line) (rest : List Char) :
    linesOf (line ++ '\n' :: rest) = line :: linesOf rest := by
  rw [linesOf_append, linesOf_last h, List.singleton_append]

theorem LineOf.mem {text line : List Char} (h : LineOf text line) : line ∈ linesOf text := by
  obtain ⟨hline, before, after, rfl, hbefore, hafter⟩ := h
  have htail : line ∈ linesOf (line ++ after) := by
    rcases hafter with ⟨rest, rfl⟩ | ⟨rfl, -⟩
    · simp [linesOf_line hline]
    · simp [linesOf_last hline]
  rcases hbefore with rfl | ⟨text, rfl⟩
  · simpa using htail
  · have hsplit : text ++ ['\n'] ++ line ++ after = text ++ '\n' :: (line ++ after) := by simp
    rw [hsplit, linesOf_append]
    exact List.mem_append_right _ htail

theorem lineOf_of_mem {text line : List Char} (h : line ∈ linesOf text) (hne : line ≠ []) :
    LineOf text line := by
  induction text using lines_induction with
  | last l hl =>
    obtain rfl : line = l := by simpa [linesOf_last hl] using h
    exact ⟨hl, [], [], by simp, .inl rfl, .inr ⟨rfl, hne⟩⟩
  | line l rest hl ih =>
    rw [linesOf_line hl, List.mem_cons] at h
    rcases h with rfl | h
    · exact ⟨hl, [], '\n' :: rest, by simp, .inl rfl, .inl ⟨rest, rfl⟩⟩
    · obtain ⟨hline, before, after, hrest, hbefore, hafter⟩ := ih h
      refine ⟨hline, l ++ '\n' :: before, after, by simp [hrest], .inr ?_, hafter⟩
      rcases hbefore with rfl | ⟨more, rfl⟩
      · exact ⟨l, rfl⟩
      · exact ⟨l ++ '\n' :: more, by simp⟩

theorem isAlpha_iff {c : Char} :
    c.isAlpha ↔ (65 ≤ c.toNat ∧ c.toNat ≤ 90) ∨ (97 ≤ c.toNat ∧ c.toNat ≤ 122) := by
  show (decide ('A'.val ≤ c.val ∧ c.val ≤ 'Z'.val) ||
    (decide ('a'.val ≤ c.val) && decide (c.val ≤ 'z'.val))) = true ↔ _
  simp [UInt32.le_iff_toNat_le]

theorem isAlpha_toUpper (c : Char) : c.toUpper.isAlpha = c.isAlpha := by
  unfold Char.toUpper
  split
  case isTrue h =>
    have hlower : 97 ≤ c.toNat ∧ c.toNat ≤ 122 := h
    have hupper : (c.val + ('A'.val - 'a'.val)).toNat = c.toNat - 32 := by
      rw [UInt32.toNat_add]
      simp
      omega
    rw [Bool.eq_iff_iff, isAlpha_iff, isAlpha_iff]
    simp only [Char.toNat] at *
    rw [hupper]
    omega
  case isFalse => rfl

theorem not_blank {c : Char} (h : c.isAlpha) : ¬ Text.isBlank c := by
  rw [isAlpha_iff] at h
  simp [Text.isBlank, Text.blanks]
  omega

theorem Word.of_upper {v w : List Char} (h : v.map Char.toUpper = w.map Char.toUpper)
    (hv : Word v) : Word w := by
  constructor
  · rintro rfl
    exact hv.1 (by simpa using h)
  · intro c hc
    have hmem : c.toUpper ∈ v.map Char.toUpper := h ▸ List.mem_map_of_mem hc
    obtain ⟨d, hd, hcd⟩ := List.mem_map.mp hmem
    rw [← isAlpha_toUpper, ← hcd, isAlpha_toUpper]
    exact hv.2 d hd

theorem dropWhile_blanks {before v : List Char} (hbefore : Blanks before) (hv : Word v)
    (rest : List Char) : (before ++ (v ++ rest)).dropWhile Text.isBlank = v ++ rest := by
  rw [List.dropWhile_append_of_pos hbefore]
  obtain ⟨c, v', rfl⟩ := List.exists_cons_of_ne_nil hv.1
  exact List.dropWhile_cons_of_neg (not_blank (hv.2 c (by simp)))

theorem trim_word {before v after : List Char} (hbefore : Blanks before) (hafter : Blanks after)
    (hv : Word v) : Text.trim (before ++ v ++ after) = v := by
  have hleft : (before ++ v ++ after).dropWhile Text.isBlank = v ++ after := by
    rw [List.append_assoc, dropWhile_blanks hbefore hv]
  have hafter' : Blanks after.reverse := fun c hc => hafter c (List.mem_reverse.mp hc)
  have hv' : Word v.reverse :=
    ⟨by simpa using hv.1, fun c hc => hv.2 c (List.mem_reverse.mp hc)⟩
  have hright := dropWhile_blanks hafter' hv' []
  rw [List.append_nil] at hright
  rw [Text.trim, hleft, List.reverse_append, hright, List.reverse_reverse]

theorem trim_blanks (line : List Char) :
    ∃ before after, line = before ++ Text.trim line ++ after ∧ Blanks before ∧ Blanks after := by
  let rest := line.dropWhile Text.isBlank
  refine ⟨line.takeWhile Text.isBlank, (rest.reverse.takeWhile Text.isBlank).reverse, ?_, ?_, ?_⟩
  · rw [Text.trim, List.append_assoc, ← List.reverse_append, List.takeWhile_append_dropWhile,
      List.reverse_reverse, List.takeWhile_append_dropWhile]
  · exact fun c hc => List.mem_takeWhile_imp hc
  · exact fun c hc => List.mem_takeWhile_imp (List.mem_reverse.mp hc)

theorem wordOf_eq_some {line : List Char} {u : String} : wordOf? line = some u ↔
    ∃ before v after, line = before ++ v ++ after ∧ Blanks before ∧ Blanks after ∧
      Word v ∧ upper v = u := by
  constructor
  · intro h
    obtain ⟨before, after, hline, hbefore, hafter⟩ := trim_blanks line
    rw [wordOf?, Option.ite_none_right_eq_some, List.all_eq_true, Option.some_inj] at h
    exact ⟨before, _, after, hline, hbefore, hafter, h⟩
  · rintro ⟨before, v, after, rfl, hbefore, hafter, hv, rfl⟩
    rw [wordOf?, trim_word hbefore hafter hv, if_pos]
    exact ⟨hv.1, List.all_eq_true.mpr hv.2⟩

@[simp] theorem mem_unrepeated {u : String} (l : List String) : u ∈ unrepeated l ↔ u ∈ l := by
  fun_induction unrepeated l with grind

theorem nodup_unrepeated {l : List String} (h : l.Pairwise (· ≤ ·)) : (unrepeated l).Nodup := by
  fun_induction unrepeated l with
  | case1 a l ih => exact ih (List.pairwise_cons.mp h).2
  | case2 a b l hne ih =>
    have ⟨ha, hl⟩ := List.pairwise_cons.mp h
    have hb := (List.pairwise_cons.mp hl).1
    refine List.nodup_cons.mpr ⟨fun hmem => ?_, ih hl⟩
    rw [mem_unrepeated, List.mem_cons] at hmem
    rcases hmem with hab | hmem
    · exact hne hab
    · exact hne (String.le_antisymm (ha b (by simp)) (hb a hmem))
  | case3 l hl =>
    cases l with
    | nil => exact List.nodup_nil
    | cons a l =>
      cases l with
      | nil => exact List.nodup_singleton a
      | cons b l => exact absurd rfl (hl a b l)

@[simp] theorem mem_ofLines {u : String} (lines : List (List Char)) :
    u ∈ (ofLines lines).words ↔ u ∈ lines.filterMap wordOf? := by
  rw [ofLines, mem_unrepeated, List.mem_mergeSort]

theorem nodup_ofLines (lines : List (List Char)) : (ofLines lines).words.Nodup :=
  nodup_unrepeated (List.pairwise_mergeSort' (· ≤ ·) _)

theorem mem_ofText {text u : String} : u ∈ (ofText text).words ↔
    ∃ v, Word v ∧ Listed text.toList v ∧ upper v = u := by
  rw [ofText, mem_ofLines, List.mem_filterMap]
  constructor
  · rintro ⟨line, hline, hu⟩
    obtain ⟨before, v, after, rfl, hbefore, hafter, hv, rfl⟩ := wordOf_eq_some.mp hu
    have hne : before ++ v ++ after ≠ [] := by simp [hv.1]
    exact ⟨v, hv, ⟨_, lineOf_of_mem hline hne, before, v, after, rfl, hbefore, hafter, rfl⟩, rfl⟩
  · rintro ⟨w, hw, ⟨line, hline, before, v, after, rfl, hbefore, hafter, hsame⟩, rfl⟩
    have hv : Word v := hw.of_upper hsame.symm
    refine ⟨_, hline.mem, wordOf_eq_some.mpr ⟨before, v, after, rfl, hbefore, hafter, hv, ?_⟩⟩
    rw [upper, hsame, upper]

theorem upper_inj {v w : List Char} :
    upper v = upper w ↔ v.map Char.toUpper = w.map Char.toUpper := by
  rw [upper, upper, String.ofList_inj]

theorem accepts_ofText {text w : String} :
    (ofText text).accepts w ↔ Word w.toList ∧ Listed text.toList w.toList := by
  rw [accepts, List.contains_iff_mem, mem_ofText]
  constructor
  · rintro ⟨v, hv, ⟨line, hline, before, x, after, hsplit, hbefore, hafter, hsame⟩, hu⟩
    have hvw := upper_inj.mp hu
    exact ⟨hv.of_upper hvw, line, hline, before, x, after, hsplit, hbefore, hafter, hsame.trans hvw⟩
  · exact fun h => ⟨w.toList, h.1, h.2, rfl⟩

theorem size_ofText (text : String) : (ofText text).size =
    {u | ∃ w, Word w ∧ Listed text.toList w ∧ upper w = u}.ncard := by
  have hset : {u | ∃ w, Word w ∧ Listed text.toList w ∧ upper w = u} =
      ((ofText text).words.toFinset : Set String) := by
    ext u
    simp [← mem_ofText]
  rw [hset, Set.ncard_coe_finset, size, ofText, List.toFinset_card_of_nodup (nodup_ofLines _)]

end TileRace.Dictionary
