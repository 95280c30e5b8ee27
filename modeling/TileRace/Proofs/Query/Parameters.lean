import TileRace.Proofs.Query.Escapes

namespace TileRace.Query

open Text

/-- A query in which a value is that of the first parameter with the key. Parameters before it have
no equals sign or another key. -/
def First (query key value : List Char) : Prop :=
  ∃ before after, query = ['&'].intercalate (before ++ (key ++ '=' :: value) :: after) ∧
    '&' ∉ value ∧ (∀ p ∈ before, '&' ∉ p ∧ ∀ w, p ≠ key ++ '=' :: w) ∧ ∀ p ∈ after, '&' ∉ p

theorem pair_eq_some {parameter key value : List Char} :
    pair? parameter = some (key, value) ↔ parameter = key ++ '=' :: value ∧ '=' ∉ key := by
  constructor
  · intro h
    have hsplit := List.takeWhile_append_dropWhile (p := (· ≠ '=')) (l := parameter)
    rw [pair?] at h
    split at h
    · cases h
    · next c rest hdrop =>
      obtain ⟨rfl, rfl⟩ : parameter.takeWhile (· ≠ '=') = key ∧ rest = value := by simpa using h
      have hc : c = '=' := by
        have hhead := List.head?_dropWhile_not (· ≠ '=') parameter
        rw [hdrop] at hhead
        simpa using hhead
      subst hc
      rw [hdrop] at hsplit
      refine ⟨hsplit.symm, fun hmem => ?_⟩
      simpa using List.all_eq_true.mp List.all_takeWhile _ hmem
  · rintro ⟨rfl, hkey⟩
    have hno : ∀ c ∈ key, decide (c ≠ '=') = true := by
      intro c hc
      simpa using ne_of_mem_of_not_mem hc hkey
    rw [pair?, List.dropWhile_append_of_pos hno, List.takeWhile_append_of_pos hno]
    simp

theorem lookup_eq_some {key value : List Char} (hkey : '=' ∉ key) (parameters : List (List Char)) :
    (parameters.filterMap pair?).lookup key = some value ↔
      ∃ before after, parameters = before ++ (key ++ '=' :: value) :: after ∧
        ∀ p ∈ before, ∀ w, p ≠ key ++ '=' :: w := by
  induction parameters with
  | nil => simp
  | cons p parameters ih =>
    by_cases hp : ∃ w, p = key ++ '=' :: w
    · obtain ⟨w, rfl⟩ := hp
      have hpair : pair? (key ++ '=' :: w) = some (key, w) := pair_eq_some.mpr ⟨rfl, hkey⟩
      rw [List.filterMap_cons_some hpair, List.lookup_cons_self, Option.some_inj]
      constructor
      · rintro rfl
        exact ⟨[], parameters, rfl, by simp⟩
      · rintro ⟨before, after, hsplit, hbefore⟩
        cases before with
        | nil => simpa using (List.cons.inj hsplit).1
        | cons q before =>
          exact absurd (List.cons.inj hsplit).1.symm (hbefore q (by simp) w)
    · have hlookup : ((p :: parameters).filterMap pair?).lookup key =
          (parameters.filterMap pair?).lookup key := by
        cases hpair : pair? p with
        | none => rw [List.filterMap_cons_none hpair]
        | some q =>
          have hne : (key == q.1) = false := by
            rw [beq_eq_false_iff_ne]
            rintro rfl
            exact hp ⟨q.2, (pair_eq_some.mp hpair).1⟩
          rw [List.filterMap_cons_some hpair, List.lookup_cons, hne]
      rw [hlookup, ih]
      constructor
      · rintro ⟨before, after, rfl, hbefore⟩
        refine ⟨p :: before, after, rfl, ?_⟩
        rintro q hq w rfl
        rcases List.mem_cons.mp hq with rfl | hq
        · exact hp ⟨w, rfl⟩
        · exact hbefore _ hq w rfl
      · rintro ⟨before, after, hsplit, hbefore⟩
        cases before with
        | nil => exact absurd ⟨value, (List.cons.inj hsplit).1⟩ hp
        | cons q before =>
          exact ⟨before, after, (List.cons.inj hsplit).2, fun p hp => hbefore p (by simp [hp])⟩

theorem no_ampersand_of_mem {query p : List Char} (h : p ∈ query.splitOn '&') : '&' ∉ p := by
  induction query generalizing p with
  | nil => simp_all
  | cons c query ih =>
    rw [List.splitOn_cons_eq_if_modifyHead] at h
    split at h
    · rcases List.mem_cons.mp h with rfl | h
      · simp
      · exact ih h
    · next hc =>
      obtain ⟨q, rest, hrest⟩ := List.exists_cons_of_ne_nil (List.splitOn_ne_nil '&' query)
      rw [hrest, List.modifyHead_cons, List.mem_cons] at h
      rcases h with rfl | h
      · have hq : '&' ∉ q := ih (by simp [hrest])
        rw [List.mem_cons, not_or]
        exact ⟨fun heq => hc (by simp [← heq]), hq⟩
      · exact ih (by simp [hrest, h])

theorem lookup_iff_first {query key value : List Char} (hand : '&' ∉ key) (hkey : '=' ∉ key) :
    ((query.splitOn '&').filterMap pair?).lookup key = some value ↔ First query key value := by
  rw [lookup_eq_some hkey]
  constructor
  · rintro ⟨before, after, hsplit, hbefore⟩
    have hno : ∀ p ∈ before ++ (key ++ '=' :: value) :: after, '&' ∉ p :=
      fun p hp => no_ampersand_of_mem (hsplit ▸ hp)
    refine ⟨before, after, ?_, ?_, fun p hp => ⟨hno p (by simp [hp]), hbefore p hp⟩,
      fun p hp => hno p (by simp [hp])⟩
    · rw [← hsplit, List.intercalate_splitOn]
    · exact fun hmem => hno (key ++ '=' :: value) (by simp) (by simp [hmem])
  · rintro ⟨before, after, rfl, hvalue, hbefore, hafter⟩
    refine ⟨before, after, ?_, fun p hp => (hbefore p hp).2⟩
    apply List.splitOn_intercalate
    · intro p hp
      rcases List.mem_append.mp hp with hp | hp
      · exact (hbefore p hp).1
      · rcases List.mem_cons.mp hp with rfl | hp
        · simp [hand, hvalue]
        · exact hafter p hp
    · simp

theorem parameter_first {query key : String} {value : List Char} (hand : '&' ∉ key.toList)
    (hkey : '=' ∉ key.toList) (h : First query.toList key.toList value) :
    parameter? query key = (decode? value).filter (· ≠ "") := by
  rw [parameter?, (lookup_iff_first hand hkey).mpr h]
  rfl

theorem decode_eq_some {value : List Char} {s : String} :
    decode? value = some s ↔ bytes value = utf8 s.toList := by
  rw [decode?, fromUTF8_eq_some, List.data_toByteArray]

theorem parameter_eq_some {query key s : String} {value : List Char} (hand : '&' ∉ key.toList)
    (hkey : '=' ∉ key.toList) (h : First query.toList key.toList value) :
    parameter? query key = some s ↔ s ≠ "" ∧ bytes value = utf8 s.toList := by
  rw [parameter_first hand hkey h, Option.filter_eq_some_iff, decode_eq_some, and_comm]
  simp

theorem parameter_eq_none {query key : String} {value : List Char} (hand : '&' ∉ key.toList)
    (hkey : '=' ∉ key.toList) (h : First query.toList key.toList value) :
    parameter? query key = none ↔
      bytes value = [] ∨ ¬ (bytes value).toByteArray.IsValidUTF8 := by
  rw [Option.eq_none_iff_forall_ne_some]
  simp only [ne_eq, parameter_eq_some hand hkey h, not_and]
  constructor
  · intro hnone
    by_cases hvalid : (bytes value).toByteArray.IsValidUTF8
    · obtain ⟨cs, hcs⟩ := hvalid
      have hbytes : bytes value = utf8 cs := toByteArray_injective hcs
      by_cases hcs : cs = []
      · exact .inl (by rw [hbytes, hcs, utf8_nil])
      · exact absurd (by simpa using hbytes) (hnone (String.ofList cs) (by simpa using hcs))
    · exact .inr hvalid
  · rintro (hnil | hinvalid) s hs hbytes
    · rw [hnil] at hbytes
      exact hs (String.toList_eq_nil_iff.mp (utf8_injective hbytes.symm))
    · exact hinvalid (hbytes ▸ ⟨s.toList, rfl⟩)

/-- The value of the first parameter with a key is read back from every way to write it. A value
without plus signs and escapes stands for itself. In general the bytes that the value unescapes to,
which are unique and what the walk over it finds, are the text that is read, and nothing is read
exactly when there are none or they are no text. -/
theorem reads_back (key : String) (hand : '&' ∉ key.toList) (hkey : '=' ∉ key.toList) :
    (∀ (s query : String) (e : List Char), s ≠ "" → Encodes s.toList e →
      First query.toList key.toList e → parameter? query key = some s) ∧
    (∀ value query : String, value ≠ "" → Plain value.toList → '+' ∉ value.toList →
      First query.toList key.toList value.toList → parameter? query key = some value) ∧
    ∀ (query : String) (value : List Char), First query.toList key.toList value →
      ∃ found, Unescapes (utf8 value) found ∧
        (∀ other, Unescapes (utf8 value) other → other = found) ∧
        walk (utf8 value) 0 = found ∧
        (parameter? query key = none ↔ found = [] ∨ ¬ found.toByteArray.IsValidUTF8) ∧
        ∀ s, parameter? query key = some s ↔ s ≠ "" ∧ found = utf8 s.toList := by
  refine ⟨fun s query e hs he h => ?_, fun value query hne hplain hplus h => ?_,
    fun query value h => ⟨bytes value, unescapes_bytes value, ?_, walk_eq_bytes value,
      parameter_eq_none hand hkey h, fun s => parameter_eq_some hand hkey h⟩⟩
  · exact (parameter_eq_some hand hkey h).mpr ⟨hs, he.bytes_eq⟩
  · exact (parameter_eq_some hand hkey h).mpr ⟨hne, bytes_plain hplain hplus⟩
  · exact fun other hother => hother.unique (unescapes_bytes value)

/-- A letter of two bytes, a space, an ampersand and a percent sign, between other parameters. -/
theorem reads_back_mixed :
    '&' ∉ "name".toList ∧ '=' ∉ "name".toList ∧
    Encodes "Jü &%".toList "J%C3%bc+%26%25".toList ∧
    First "x=1&name&name=J%C3%bc+%26%25&name=no".toList "name".toList "J%C3%bc+%26%25".toList ∧
    parameter? "x=1&name&name=J%C3%bc+%26%25&name=no" "name" = some "Jü &%" := by
  have hand : '&' ∉ "name".toList := by decide
  have hkey : '=' ∉ "name".toList := by decide
  have digit (c : Char) (n : Nat) (h : Text.hexDigit? c = some n) : Digit c n :=
    hexDigit_eq_some.mp h
  have hcode : Encodes "Jü &%".toList "J%C3%bc+%26%25".toList := by
    refine .literal (by decide) (by decide) (by decide) ?_
    refine .escaped (x := "%C3%bc".toList) ?_ (.space ?_)
    · exact .cons (digit 'C' 12 rfl) (digit '3' 3 rfl)
        (.cons (digit 'b' 11 rfl) (digit 'c' 12 rfl) .nil)
    · refine .escaped (x := "%26".toList) ?_ (.escaped (x := "%25".toList) ?_ .nil)
      · exact .cons (digit '2' 2 rfl) (digit '6' 6 rfl) .nil
      · exact .cons (digit '2' 2 rfl) (digit '5' 5 rfl) .nil
  have hfirst : First "x=1&name&name=J%C3%bc+%26%25&name=no".toList "name".toList
      "J%C3%bc+%26%25".toList := by
    refine (lookup_iff_first hand hkey).mp ?_
    decide
  exact ⟨hand, hkey, hcode, hfirst, (reads_back "name" hand hkey).1 _ _ _ (by decide) hcode hfirst⟩

end TileRace.Query
