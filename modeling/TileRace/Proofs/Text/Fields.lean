import Mathlib.Data.List.TakeWhile
import TileRace.Text.Blank
import TileRace.Text.Decimal

namespace TileRace.Text

/-- The words of a line, in order. Blanks stand before, between and after them, as many as there may
be. -/
inductive Spaced : List (List Char) → List Char → Prop where
  | blank {before} (blanks : ∀ c ∈ before, isBlank c) : Spaced [] before
  | last {before w} (blanks : ∀ c ∈ before, isBlank c) (ne : w ≠ []) (word : ∀ c ∈ w, ¬ isBlank c) :
    Spaced [w] (before ++ w)
  | word {before w sep ws rest} (blanks : ∀ c ∈ before, isBlank c) (ne : w ≠ [])
    (word : ∀ c ∈ w, ¬ isBlank c) (blank : isBlank sep) (more : Spaced ws rest) :
    Spaced (w :: ws) (before ++ (w ++ sep :: rest))

variable {w cs : List Char}

theorem fields_append_blank {sep : Char} (hsep : isBlank sep) (xs ys : List Char) :
    fields (xs ++ sep :: ys) = fields xs ++ fields ys := by
  rw [fields, List.splitOnP_append_cons xs ys hsep, List.filter_append]
  rfl

theorem fields_blanks (h : ∀ c ∈ w, isBlank c) (cs : List Char) : fields (w ++ cs) = fields cs := by
  induction w with
  | nil => rfl
  | cons c w ih =>
    rw [List.forall_mem_cons] at h
    exact (fields_append_blank h.1 [] (w ++ cs)).trans (ih h.2)

theorem fields_word (hne : w ≠ []) (h : ∀ c ∈ w, ¬ isBlank c) : fields w = [w] := by
  rw [fields, List.splitOnP_eq_singleton (by simpa using h)]
  simp [hne]

theorem Spaced.fields_eq {ws : List (List Char)} (h : Spaced ws cs) : fields cs = ws := by
  induction h with
  | @blank before blanks =>
    have hnil : fields [] = [] := rfl
    rw [← List.append_nil before, fields_blanks blanks, hnil]
  | last blanks ne word => rw [fields_blanks blanks, fields_word ne word]
  | word blanks ne word blank more ih =>
    rw [fields_blanks blanks, fields_append_blank blank, fields_word ne word, ih,
      List.singleton_append]

theorem trim_eq_nil : trim cs = [] ↔ ∀ c ∈ cs, isBlank c := by
  constructor
  · intro h
    have hdrop : (cs.dropWhile isBlank).reverse.dropWhile isBlank = [] :=
      List.reverse_eq_nil_iff.mp h
    rw [List.dropWhile_eq_nil_iff] at hdrop
    intro c hc
    rw [← List.takeWhile_append_dropWhile (p := isBlank) (l := cs), List.mem_append] at hc
    rcases hc with hc | hc
    · exact List.all_eq_true.mp List.all_takeWhile c hc
    · exact hdrop c (List.mem_reverse.mpr hc)
  · intro h
    rw [trim, List.dropWhile_eq_nil_iff.mpr h]
    rfl

def Digits (n : Nat) (cs : List Char) : Prop :=
  ∃ zeros, cs = List.replicate zeros '0' ++ Nat.toDigits 10 n

inductive Unsigned (n : Nat) : List Char → Prop where
  | plain {ds : List Char} (digits : Digits n ds) : Unsigned n ds
  | plus {ds : List Char} (digits : Digits n ds) : Unsigned n ('+' :: ds)

inductive Signed : Int → List Char → Prop where
  | unsigned {n : Nat} {ds : List Char} (unsigned : Unsigned n ds) : Signed n ds
  | minus {n : Nat} {ds : List Char} (digits : Digits n ds) : Signed (-n) ('-' :: ds)

variable {n : Nat}

theorem Digits.isDigit (h : Digits n cs) : ∀ c ∈ cs, c.isDigit := by
  obtain ⟨zeros, rfl⟩ := h
  intro c hc
  rcases List.mem_append.mp hc with hzero | hc
  · rw [List.eq_of_mem_replicate hzero]
    rfl
  · exact Nat.isDigit_of_mem_toDigits (by decide) (by decide) hc

theorem ofDigitChars_zeros (zeros : Nat) (cs : List Char) :
    Nat.ofDigitChars 10 (List.replicate zeros '0' ++ cs) 0 = Nat.ofDigitChars 10 cs 0 := by
  induction zeros with
  | zero => rfl
  | succ zeros ih => exact ih

theorem Digits.natural? (h : Digits n cs) : natural? cs = some n := by
  have hall : cs.all Char.isDigit := List.all_eq_true.mpr h.isDigit
  obtain ⟨zeros, rfl⟩ := h
  have hne : List.replicate zeros '0' ++ Nat.toDigits 10 n ≠ [] :=
    List.append_ne_nil_of_right_ne_nil _ Nat.toDigits_ne_nil
  rw [Text.natural?, if_pos ⟨hne, hall⟩, ofDigitChars_zeros,
    Nat.ofDigitChars_ten_toDigits]

theorem Digits.head_ne (h : Digits n cs) {c : Char} (hc : c.isDigit = false) :
    ∀ rest, cs ≠ c :: rest := by
  rintro rest rfl
  rw [h.isDigit c (by simp)] at hc
  contradiction

theorem Unsigned.unsigned? {limit : Nat} (h : Unsigned n cs) (hn : n < limit) :
    unsigned? limit cs = some n := by
  have hread {ds : List Char} (digits : Digits n ds) :
      (natural? ds).filter (· < limit) = some n := by
    rw [digits.natural?]
    simp [hn]
  unfold Text.unsigned?
  cases h with
  | plus digits => exact hread digits
  | plain digits =>
    split
    · exact absurd rfl (digits.head_ne rfl _)
    · exact hread digits

theorem u32?_of_unsigned {id : UInt32} (h : Unsigned id.toNat cs) : u32? cs = some id := by
  rw [u32?, h.unsigned? id.toNat_lt]
  exact congrArg some UInt32.ofNat_toNat

theorem Signed.signed? {limit : Nat} {z : Int} (h : Signed z cs) (hlow : -limit ≤ z)
    (hhigh : z < limit) : signed? limit cs = some z := by
  have hfilter : (some z).filter (fun z => -(limit : Int) ≤ z ∧ z < limit) = some z := by
    simp [hlow, hhigh]
  unfold Text.signed?
  cases h with
  | minus digits =>
    simp only [digits.natural?]
    exact hfilter
  | unsigned h =>
    cases h with
    | plus digits =>
      simp only [digits.natural?]
      exact hfilter
    | plain digits =>
      split
      · exact absurd rfl (digits.head_ne rfl _)
      · exact absurd rfl (digits.head_ne rfl _)
      · simp only [digits.natural?]
        exact hfilter

theorem i32?_of_signed {x : Int32} (h : Signed x.toInt cs) : i32? cs = some x := by
  have hread : signed? (Int32.size / 2) cs = some x.toInt := h.signed? x.le_toInt x.toInt_lt
  rw [i32?, hread]
  exact congrArg some x.ofInt_toInt

end TileRace.Text
