import Mathlib.Tactic.IntervalCases
import TileRace.Proofs.Text.Utf8
import TileRace.Query

namespace TileRace.Query

open Text

def Digit (c : Char) (n : Nat) : Prop := n < 16 ∧ (c = n.digitChar ∨ c = n.digitChar.toUpper)

def plusSign : UInt8 := '+'.toUInt8

def percentSign : UInt8 := '%'.toUInt8

def space : UInt8 := ' '.toUInt8

def Opens (value : List UInt8) : Prop :=
  ∃ a b rest m n, value = a :: b :: rest ∧ Digit (.ofUInt8 a) m ∧ Digit (.ofUInt8 b) n

/-- The second bytes are the first with plus signs and escapes taken back. -/
inductive Unescapes : List UInt8 → List UInt8 → Prop where
  | nil : Unescapes [] []
  | plus {value bytes} : Unescapes value bytes → Unescapes (plusSign :: value) (space :: bytes)
  | escape {a b m n value bytes} : Digit (.ofUInt8 a) m → Digit (.ofUInt8 b) n →
      Unescapes value bytes →
      Unescapes (percentSign :: a :: b :: value) (UInt8.ofNat (m * 16 + n) :: bytes)
  | percent {value bytes} : ¬ Opens value → Unescapes value bytes →
      Unescapes (percentSign :: value) (percentSign :: bytes)
  | literal {b value bytes} : b ≠ plusSign → b ≠ percentSign → Unescapes value bytes →
      Unescapes (b :: value) (b :: bytes)

inductive Escapes : List UInt8 → List Char → Prop where
  | nil : Escapes [] []
  | cons {c d m n bytes text} : Digit c m → Digit d n → Escapes bytes text →
      Escapes (UInt8.ofNat (m * 16 + n) :: bytes) ('%' :: c :: d :: text)

/-- Each character is written as escapes of all its bytes, as it is, or as a plus sign. -/
inductive Encodes : List Char → List Char → Prop where
  | nil : Encodes [] []
  | escaped {c x s e} : Escapes (String.utf8EncodeChar c) x → Encodes s e →
      Encodes (c :: s) (x ++ e)
  | space {s e} : Encodes s e → Encodes (' ' :: s) ('+' :: e)
  | literal {c s e} : c ≠ '%' → c ≠ '+' → c ≠ '&' → Encodes s e → Encodes (c :: s) (c :: e)

theorem hexDigit_eq_some {c : Char} {n : Nat} : hexDigit? c = some n ↔ Digit c n := by
  constructor
  · intro h
    have hcases : (48 ≤ c.toNat ∧ c.toNat ≤ 57) ∨ (97 ≤ c.toNat ∧ c.toNat ≤ 102) ∨
        (65 ≤ c.toNat ∧ c.toNat ≤ 70) := by
      rw [hexDigit?] at h
      split_ifs at h with h09 haf hAF
      · exact .inl (by simpa [Char.isDigit, UInt32.le_iff_toNat_le] using h09)
      · exact .inr (.inl haf)
      · exact .inr (.inr hAF)
    rw [← Char.ofNat_toNat c] at h ⊢
    rcases hcases with ⟨hl, hu⟩ | ⟨hl, hu⟩ | ⟨hl, hu⟩ <;> interval_cases hc : c.toNat <;>
      · obtain rfl := Option.some.inj h
        exact ⟨by decide, by decide⟩
  · rintro ⟨hn, hc⟩
    interval_cases n <;> rcases hc with rfl | rfl <;> decide

theorem Digit.unique {c : Char} {m n : Nat} (hm : Digit c m) (hn : Digit c n) : m = n :=
  Option.some.inj ((hexDigit_eq_some.mpr hm).symm.trans (hexDigit_eq_some.mpr hn))

theorem Digit.ascii {c : Char} {n : Nat} (h : Digit c n) : c.val ≤ 127 := by
  obtain ⟨hn, hc⟩ := h
  interval_cases n <;> rcases hc with rfl | rfl <;> decide

theorem hexByte_eq_some {c d : Char} {b : UInt8} : hexByte? c d = some b ↔
    ∃ m n, Digit c m ∧ Digit d n ∧ UInt8.ofNat (m * 16 + n) = b := by
  simp only [← hexDigit_eq_some, hexByte?]
  cases hexDigit? c <;> cases hexDigit? d <;> simp

theorem ofUInt8_toUInt8 {c : Char} (h : c.val ≤ 127) : Char.ofUInt8 c.toUInt8 = c := by
  have hval : c.val.toNat ≤ 127 := h
  apply Char.ext
  apply UInt32.toNat_inj.mp
  show c.val.toNat % 256 = c.val.toNat
  omega

theorem toUInt8_ofUInt8 (b : UInt8) : (Char.ofUInt8 b).toUInt8 = b :=
  UInt8.toUInt8_toUInt32 b

theorem utf8_ascii {c : Char} (h : c.val ≤ 127) (cs : List Char) :
    utf8 (c :: cs) = c.toUInt8 :: utf8 cs := by
  rw [utf8_cons, encode_ascii h, List.singleton_append]

theorem utf8_eq_cons {b : UInt8} {rest : List UInt8} {cs : List Char}
    (hb : (Char.ofUInt8 b).val ≤ 127) (h : utf8 cs = b :: rest) :
    ∃ cs', cs = .ofUInt8 b :: cs' ∧ utf8 cs' = rest := by
  cases cs with
  | nil => simp at h
  | cons c cs =>
    by_cases hc : c.val ≤ 127
    · rw [utf8_ascii hc, List.cons.injEq] at h
      exact ⟨cs, by rw [← h.1, ofUInt8_toUInt8 hc], h.2⟩
    · obtain ⟨first, more, hbytes⟩ := List.exists_cons_of_ne_nil (@String.utf8EncodeChar_ne_nil c)
      rw [utf8_cons, hbytes, List.cons_append, List.cons.injEq] at h
      have hhigh : 128 ≤ b := h.1 ▸ encode_high hc first (by simp [hbytes])
      have hlow : b < 128 := toUInt8_ofUInt8 b ▸ toUInt8_lt hb
      exact absurd hhigh (UInt8.not_le.mpr hlow)

theorem opens_utf8 {cs : List Char} : Opens (utf8 cs) ↔
    ∃ c d rest m n, cs = c :: d :: rest ∧ Digit c m ∧ Digit d n := by
  constructor
  · rintro ⟨a, b, rest, m, n, hbytes, hm, hn⟩
    obtain ⟨cs, rfl, hcs⟩ := utf8_eq_cons hm.ascii hbytes
    obtain ⟨cs, rfl, -⟩ := utf8_eq_cons hn.ascii hcs
    exact ⟨_, _, cs, m, n, rfl, hm, hn⟩
  · rintro ⟨c, d, rest, m, n, rfl, hm, hn⟩
    refine ⟨c.toUInt8, d.toUInt8, utf8 rest, m, n, ?_, ?_, ?_⟩
    · rw [utf8_ascii hm.ascii, utf8_ascii hn.ascii]
    · rwa [ofUInt8_toUInt8 hm.ascii]
    · rwa [ofUInt8_toUInt8 hn.ascii]

theorem Unescapes.unique {value s t : List UInt8} (hs : Unescapes value s)
    (ht : Unescapes value t) : s = t := by
  induction hs generalizing t with
  | nil => cases ht; rfl
  | plus _ ih =>
    cases ht with
    | plus ht => rw [ih ht]
    | literal hne => exact absurd rfl hne
  | escape hm hn _ ih =>
    cases ht with
    | escape hm' hn' ht => rw [hm.unique hm', hn.unique hn', ih ht]
    | percent hopens => exact absurd ⟨_, _, _, _, _, rfl, hm, hn⟩ hopens
    | literal _ hne => exact absurd rfl hne
  | percent hopens _ ih =>
    cases ht with
    | escape hm hn => exact absurd ⟨_, _, _, _, _, rfl, hm, hn⟩ hopens
    | percent _ ht => rw [ih ht]
    | literal _ hne => exact absurd rfl hne
  | literal hplus hpercent _ ih =>
    cases ht with
    | plus => exact absurd rfl hplus
    | escape => exact absurd rfl hpercent
    | percent => exact absurd rfl hpercent
    | literal _ _ ht => rw [ih ht]

theorem Unescapes.literals {l value bytes : List UInt8} (hplus : plusSign ∉ l)
    (hpercent : percentSign ∉ l)
    (h : Unescapes value bytes) : Unescapes (l ++ value) (l ++ bytes) := by
  induction l with
  | nil => exact h
  | cons b l ih =>
    rw [List.mem_cons, not_or] at hplus hpercent
    exact .literal (Ne.symm hplus.1) (Ne.symm hpercent.1) (ih hplus.2 hpercent.2)

theorem mem_encode {c d : Char} (hd : d.val ≤ 127) :
    d.toUInt8 ∈ String.utf8EncodeChar c ↔ d = c := by
  have h : d.toUInt8 ∈ utf8 [c] ↔ d ∈ [c] := mem_utf8 hd
  simpa using h

theorem Unescapes.char {c : Char} (hplus : c ≠ '+') (hpercent : c ≠ '%') {value bytes : List UInt8}
    (h : Unescapes value bytes) :
    Unescapes (String.utf8EncodeChar c ++ value) (String.utf8EncodeChar c ++ bytes) :=
  .literals (fun hmem => hplus ((mem_encode (by decide)).mp hmem).symm)
    (fun hmem => hpercent ((mem_encode (by decide)).mp hmem).symm) h

/-- What is read off the characters is what the bytes say. -/
theorem unescapes_bytes (value : List Char) : Unescapes (utf8 value) (bytes value) := by
  fun_induction bytes value with
  | case1 c d rest b hb ih =>
    obtain ⟨m, n, hm, hn, rfl⟩ := hexByte_eq_some.mp hb
    rw [utf8_ascii (by decide), utf8_ascii hm.ascii, utf8_ascii hn.ascii]
    exact .escape (by rwa [ofUInt8_toUInt8 hm.ascii]) (by rwa [ofUInt8_toUInt8 hn.ascii]) ih
  | case2 c d rest hnone ih =>
    refine .percent ?_ ih
    rintro hopens
    obtain ⟨_, _, _, m, n, hcs, hm, hn⟩ := opens_utf8.mp hopens
    obtain ⟨rfl, rfl, rfl⟩ : c = _ ∧ d = _ ∧ rest = _ := by simpa using hcs
    rw [hexByte_eq_some.mpr ⟨m, n, hm, hn, rfl⟩] at hnone
    cases hnone
  | case3 rest ih => exact .plus ih
  | case4 c rest hpercent hplus ih =>
    by_cases hc : c = '%'
    · subst hc
      refine .percent ?_ ih
      rintro hopens
      obtain ⟨c, d, more, m, n, rfl, -⟩ := opens_utf8.mp hopens
      exact hpercent c d more rfl rfl
    · exact .char (fun h => hplus h) hc ih
  | case5 => exact .nil

def byteAt (value : List UInt8) (i : Nat) : Option UInt8 :=
  match value[i]?, value[i + 1]? with
  | some a, some b => hexByte? (.ofUInt8 a) (.ofUInt8 b)
  | _, _ => none

def walk (value : List UInt8) (i : Nat) : List UInt8 :=
  if _h : i < value.length then
    if value[i] = plusSign then space :: walk value (i + 1)
    else if value[i] = percentSign then
      match byteAt value (i + 1) with
      | some b => b :: walk value (i + 3)
      | none => percentSign :: walk value (i + 1)
    else value[i] :: walk value (i + 1)
  else []
termination_by value.length - i

theorem byteAt_eq_some {value : List UInt8} {i : Nat} {b : UInt8} (h : byteAt value i = some b) :
    ∃ c d m n, value.drop i = c :: d :: value.drop (i + 2) ∧ Digit (.ofUInt8 c) m ∧
      Digit (.ofUInt8 d) n ∧ UInt8.ofNat (m * 16 + n) = b := by
  rw [byteAt] at h
  split at h
  · next c d hc hd =>
    obtain ⟨hi, rfl⟩ := List.getElem?_eq_some_iff.mp hc
    obtain ⟨hi', rfl⟩ := List.getElem?_eq_some_iff.mp hd
    obtain ⟨m, n, hm, hn, hb⟩ := hexByte_eq_some.mp h
    exact ⟨_, _, m, n, by rw [List.drop_eq_getElem_cons hi, List.drop_eq_getElem_cons hi'],
      hm, hn, hb⟩
  · cases h

theorem byteAt_eq_none {value : List UInt8} {i : Nat} (h : byteAt value i = none) :
    ¬ Opens (value.drop i) := by
  rintro ⟨c, d, rest, m, n, hdrop, hm, hn⟩
  have hc : value[i]? = some c := by rw [← List.head?_drop, hdrop, List.head?_cons]
  have hd : value[i + 1]? = some d := by
    rw [← List.head?_drop, ← List.tail_drop, hdrop, List.tail_cons, List.head?_cons]
  rw [byteAt, hc, hd] at h
  simp [hexByte_eq_some.mpr ⟨m, n, hm, hn, rfl⟩] at h

theorem unescapes_walk (value : List UInt8) (i : Nat) :
    Unescapes (value.drop i) (walk value i) := by
  fun_induction walk value i with
  | case1 i hi hplus ih =>
    rw [List.drop_eq_getElem_cons hi, hplus]
    exact .plus ih
  | case2 i hi hplus hpercent b hb ih =>
    obtain ⟨c, d, m, n, hdrop, hm, hn, rfl⟩ := byteAt_eq_some hb
    rw [List.drop_eq_getElem_cons hi, hpercent, hdrop]
    exact .escape hm hn ih
  | case3 i hi hplus hpercent hnone ih =>
    rw [List.drop_eq_getElem_cons hi, hpercent]
    exact .percent (byteAt_eq_none hnone) ih
  | case4 i hi hplus hpercent ih =>
    rw [List.drop_eq_getElem_cons hi]
    exact .literal hplus hpercent ih
  | case5 i hi =>
    rw [List.drop_eq_nil_of_le (by omega)]
    exact .nil

theorem walk_eq_bytes (value : List Char) : walk (utf8 value) 0 = bytes value :=
  (unescapes_walk (utf8 value) 0).unique (unescapes_bytes value)

theorem bytes_literal {c : Char} (hpercent : c ≠ '%') (hplus : c ≠ '+') (e : List Char) :
    bytes (c :: e) = String.utf8EncodeChar c ++ bytes e := by
  rw [bytes]
  · simp_all
  · simp_all

theorem Escapes.bytes_append {bs : List UInt8} {text : List Char} (h : Escapes bs text)
    (e : List Char) : bytes (text ++ e) = bs ++ bytes e := by
  induction h with
  | nil => rfl
  | cons hm hn _ ih =>
    rw [List.cons_append, List.cons_append, List.cons_append, bytes,
      hexByte_eq_some.mpr ⟨_, _, hm, hn, rfl⟩]
    simp [ih]

theorem Encodes.bytes_eq {s e : List Char} (h : Encodes s e) : bytes e = utf8 s := by
  induction h with
  | nil => rfl
  | escaped htext _ ih => rw [htext.bytes_append, ih, utf8_cons]
  | space _ ih => rw [bytes, ih, utf8_cons]
  | literal hpercent hplus _ _ ih => rw [bytes_literal hpercent hplus, ih, utf8_cons]

def Plain (value : List Char) : Prop :=
  ∀ c d m n, ['%', c, d] <:+: value → Digit c m → ¬ Digit d n

theorem Plain.tail {c : Char} {value : List Char} (h : Plain (c :: value)) : Plain value :=
  fun a b m n hin => h a b m n (hin.trans (List.suffix_cons c value).isInfix)

theorem Plain.unescapes {value : List Char} (h : Plain value) (hplus : '+' ∉ value) :
    Unescapes (utf8 value) (utf8 value) := by
  induction value with
  | nil => exact .nil
  | cons c value ih =>
    rw [List.mem_cons, not_or] at hplus
    have hrest := ih h.tail hplus.2
    by_cases hc : c = '%'
    · subst hc
      refine .percent ?_ hrest
      intro hopens
      obtain ⟨a, b, rest, m, n, rfl, hm, hn⟩ := opens_utf8.mp hopens
      exact h a b m n ⟨[], rest, rfl⟩ hm hn
    · exact hrest.char (Ne.symm hplus.1) hc

theorem bytes_plain {value : List Char} (h : Plain value) (hplus : '+' ∉ value) :
    bytes value = utf8 value :=
  (unescapes_bytes value).unique (h.unescapes hplus)

end TileRace.Query
