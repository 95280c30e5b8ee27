import TileRace.Proofs.Text.Utf8
import TileRace.Proofs.Dictionary.Words

namespace TileRace.Dictionary

open Text

def lineFeed : UInt8 := '\n'.toUInt8

def nextLine : List UInt8 → List UInt8 × List UInt8
  | [] => ([], [])
  | b :: rest =>
    if b = lineFeed then ([b], rest) else (b :: (nextLine rest).1, (nextLine rest).2)

def withoutEnd (line : List Char) : List Char :=
  if line.getLast? = some '\n' then
    let line := line.dropLast
    if line.getLast? = some '\r' then line.dropLast else line
  else line

theorem nextLine_append (bytes : List UInt8) :
    (nextLine bytes).1 ++ (nextLine bytes).2 = bytes := by
  fun_induction nextLine bytes with simp_all

theorem length_nextLine {bytes : List UInt8} (h : bytes ≠ []) :
    (nextLine bytes).2.length < bytes.length := by
  fun_induction nextLine bytes with
  | case1 => exact absurd rfl h
  | case2 rest => simp
  | case3 b rest hb ih =>
    have hrest := congrArg List.length (nextLine_append rest)
    simp only [List.length_append, List.length_cons] at hrest ⊢
    omega

def readLines (bytes : List UInt8) : Except ReadError (List (List Char)) :=
  if _h : bytes = [] then .ok []
  else match spelled? (nextLine bytes).1 with
    | none => .error .invalidData
    | some line => (readLines (nextLine bytes).2).map (withoutEnd line :: ·)
termination_by bytes.length
decreasing_by exact length_nextLine _h

/-- Trims each line, puts it in upper case and keeps those of letters alone, as a set. -/
def collect (lines : List (List Char)) : Finset String :=
  (((lines.map fun line => (trim line).map Char.toUpper).filter fun w =>
    w ≠ [] ∧ w.all Char.isAlpha).map String.ofList).toFinset

def read (bytes : List UInt8) : Except ReadError (Finset String) := (readLines bytes).map collect

theorem nextLine_last {line : List UInt8} (h : lineFeed ∉ line) : nextLine line = (line, []) := by
  induction line with
  | nil => rfl
  | cons b line ih =>
    rw [List.mem_cons, not_or] at h
    simp [nextLine, Ne.symm h.1, ih h.2]

theorem nextLine_line {line : List UInt8} (h : lineFeed ∉ line) (rest : List UInt8) :
    nextLine (line ++ lineFeed :: rest) = (line ++ [lineFeed], rest) := by
  induction line with
  | nil => simp [nextLine]
  | cons b line ih =>
    rw [List.mem_cons, not_or] at h
    simp [nextLine, Ne.symm h.1, ih h.2]

theorem lineFeed_mem {cs : List Char} : lineFeed ∈ utf8 cs ↔ '\n' ∈ cs := mem_utf8 (by decide)

theorem trim_append {after : List Char} (h : Blanks after) (line : List Char) :
    trim (line ++ after) = trim line := by
  have hafter : Blanks after.reverse := fun c hc => h c (List.mem_reverse.mp hc)
  rw [trim, List.dropWhile_append]
  split
  · next hblank =>
    rw [List.isEmpty_iff] at hblank
    rw [trim, hblank, List.dropWhile_eq_nil_iff.mpr h]
  · rw [List.reverse_append, List.dropWhile_append_of_pos hafter, trim]

theorem wordOf_append {after : List Char} (h : Blanks after) (line : List Char) :
    wordOf? (line ++ after) = wordOf? line := by
  rw [wordOf?, trim_append h, wordOf?]

theorem withoutEnd_last {line : List Char} (h : '\n' ∉ line) : withoutEnd line = line :=
  if_neg fun hlast => h (List.mem_of_getLast? hlast)

theorem blanks_return : Blanks ['\r'] := by
  simp [Blanks]
  decide

theorem wordOf_withoutEnd (line : List Char) :
    wordOf? (withoutEnd (line ++ ['\n'])) = wordOf? line := by
  rw [withoutEnd, if_pos List.getLast?_concat, List.dropLast_concat]
  dsimp only
  split
  · next hlast =>
    have hline : line.dropLast ++ ['\r'] = line := List.dropLast_append_getLast? _ hlast
    rw [← wordOf_append blanks_return, hline]
  · rfl

theorem readLines_utf8 (text : List Char) : ∃ lines, readLines (utf8 text) = .ok lines ∧
    lines.filterMap wordOf? = (linesOf text).filterMap wordOf? := by
  induction text using lines_induction with
  | last line hline =>
    by_cases hnil : line = []
    · subst hnil
      exact ⟨[], by simp [readLines], by decide⟩
    · refine ⟨[line], ?_, by rw [linesOf_last hline]⟩
      have hbytes : utf8 line ≠ [] := fun h => hnil (utf8_injective (by simpa using h))
      rw [readLines, dif_neg hbytes, nextLine_last (mt lineFeed_mem.mp hline)]
      simp [spelled_utf8, readLines, withoutEnd_last hline, Except.map]
  | line line rest hline ih =>
    obtain ⟨lines, hread, hwords⟩ := ih
    have hend : utf8 (line ++ ['\n']) = utf8 line ++ [lineFeed] := by rw [utf8_append]; rfl
    have hbytes : utf8 (line ++ '\n' :: rest) = utf8 line ++ lineFeed :: utf8 rest := by
      rw [utf8_append]
      rfl
    refine ⟨withoutEnd (line ++ ['\n']) :: lines, ?_, ?_⟩
    · rw [hbytes, readLines, dif_neg (by simp), nextLine_line (mt lineFeed_mem.mp hline), ← hend,
        spelled_utf8]
      simp [hread, Except.map]
    · rw [linesOf_line hline, List.filterMap_cons, List.filterMap_cons, wordOf_withoutEnd, hwords]

theorem readLines_error {bytes : List UInt8} {e : ReadError} (h : readLines bytes = .error e) :
    e = .invalidData := by
  fun_induction readLines bytes with
  | case1 => simp at h
  | case2 bytes hne hline => simpa using h.symm
  | case3 bytes hne line hline ih =>
    cases hrest : readLines (nextLine bytes).2 with
    | error e' =>
      rw [hrest] at h
      exact ih (hrest.trans h)
    | ok lines => simp [hrest, Except.map] at h

theorem readLines_ok {bytes : List UInt8} {lines : List (List Char)}
    (h : readLines bytes = .ok lines) : ∃ text, bytes = utf8 text := by
  fun_induction readLines bytes generalizing lines with
  | case1 => exact ⟨[], rfl⟩
  | case2 bytes hne hline => simp at h
  | case3 bytes hne line hline ih =>
    cases hrest : readLines (nextLine bytes).2 with
    | error e => simp [hrest, Except.map] at h
    | ok rest =>
      obtain ⟨more, hmore⟩ := ih hrest
      refine ⟨line ++ more, ?_⟩
      rw [utf8_append, ← hmore, ← spelled_eq_some.mp hline, nextLine_append]

theorem mem_collect {lines : List (List Char)} {u : String} :
    u ∈ collect lines ↔ u ∈ lines.filterMap wordOf? := by
  have hkeep (w : List Char) : (w.map Char.toUpper ≠ [] ∧ (w.map Char.toUpper).all Char.isAlpha) ↔
      (w ≠ [] ∧ w.all Char.isAlpha) := by
    have hsame : Char.isAlpha ∘ Char.toUpper = Char.isAlpha := funext isAlpha_toUpper
    simp only [List.all_map, hsame, ne_eq, List.map_eq_nil_iff]
  simp only [collect, List.mem_toFinset, List.mem_map, List.mem_filter, List.mem_filterMap,
    decide_eq_true_eq, wordOf?, Option.ite_none_right_eq_some, Option.some_inj]
  constructor
  · rintro ⟨_, ⟨⟨line, hline, rfl⟩, hword⟩, rfl⟩
    exact ⟨line, hline, (hkeep _).mp hword, rfl⟩
  · rintro ⟨line, hline, hword, rfl⟩
    exact ⟨_, ⟨⟨line, hline, rfl⟩, (hkeep _).mpr hword⟩, rfl⟩

theorem ofBytes_text (text : String) : ofBytes text.toByteArray = .ok (ofText text) := by
  have htext : String.fromUTF8? text.toByteArray = some text := by
    rw [fromUTF8_eq_some, ← String.utf8Encode_toList]
    simp [utf8, List.utf8Encode]
  rw [ofBytes, htext]

theorem ofBytes_invalid {bytes : ByteArray} (h : ¬ bytes.IsValidUTF8) :
    ofBytes bytes = .error .invalidData := by
  simp [ofBytes, String.fromUTF8?, h]

theorem data_text (text : String) : text.toByteArray.data.toList = utf8 text.toList := by
  rw [← String.utf8Encode_toList]
  simp [utf8, List.utf8Encode]

/-- Reading line by line makes the same set of words as splitting the whole text. -/
theorem read_eq (bytes : ByteArray) :
    read bytes.data.toList = (ofBytes bytes).map fun d => d.words.toFinset := by
  by_cases hvalid : bytes.IsValidUTF8
  · obtain ⟨cs, rfl⟩ := hvalid
    obtain ⟨lines, hread, hwords⟩ := readLines_utf8 cs
    have hset : collect lines = (ofText (String.ofList cs)).words.toFinset := by
      ext u
      rw [mem_collect, hwords, List.mem_toFinset, ofText, mem_ofLines, String.toList_ofList]
    rw [← String.toByteArray_ofList, ofBytes_text, read, data_text, String.toList_ofList, hread]
    exact congrArg Except.ok hset
  · rw [ofBytes_invalid hvalid, read]
    cases hread : readLines bytes.data.toList with
    | ok lines =>
      obtain ⟨text, htext⟩ := readLines_ok hread
      have hbytes : bytes = text.utf8Encode := by
        ext1
        simpa [utf8, List.utf8Encode] using congrArg List.toArray htext
      exact absurd ⟨text, hbytes⟩ hvalid
    | error e => rw [readLines_error hread]; rfl

def crlf (text : List Char) : List Char :=
  text.flatMap fun c => if c = '\n' then ['\r', '\n'] else [c]

theorem crlf_last {line : List Char} (h : '\n' ∉ line) : crlf line = line := by
  induction line with
  | nil => rfl
  | cons c line ih =>
    rw [List.mem_cons, not_or] at h
    rw [crlf, List.flatMap_cons, if_neg (Ne.symm h.1), ← crlf, ih h.2, List.singleton_append]

theorem crlf_line {line : List Char} (h : '\n' ∉ line) (rest : List Char) :
    crlf (line ++ '\n' :: rest) = line ++ ['\r'] ++ '\n' :: crlf rest := by
  rw [crlf, List.flatMap_append, ← crlf, crlf_last h, List.flatMap_cons]
  simp [crlf]

theorem words_crlf (text : List Char) :
    (linesOf (crlf text)).filterMap wordOf? = (linesOf text).filterMap wordOf? := by
  induction text using lines_induction with
  | last line hline => rw [crlf_last hline]
  | line line rest hline ih =>
    have hreturn : '\n' ∉ line ++ ['\r'] := by simpa using hline
    rw [crlf_line hline, linesOf_line hreturn, linesOf_line hline, List.filterMap_cons,
      List.filterMap_cons, wordOf_append blanks_return, ih]

theorem words_return (text : List Char) :
    (linesOf (text ++ ['\r'])).filterMap wordOf? = (linesOf text).filterMap wordOf? := by
  induction text using lines_induction with
  | last line hline =>
    have hreturn : '\n' ∉ line ++ ['\r'] := by simpa using hline
    simp only [linesOf_last hreturn, linesOf_last hline, List.filterMap_cons,
      wordOf_append blanks_return]
  | line line rest hline ih =>
    rw [List.append_assoc, List.cons_append, linesOf_line hline, linesOf_line hline,
      List.filterMap_cons, List.filterMap_cons, ih]

theorem words_append {eol : List Char} (heol : eol = ['\n'] ∨ eol = ['\r', '\n'])
    (s t : List Char) : (linesOf (s ++ eol ++ t)).filterMap wordOf? =
      (linesOf s).filterMap wordOf? ++ (linesOf t).filterMap wordOf? := by
  rcases heol with rfl | rfl
  · rw [List.append_assoc, List.singleton_append, linesOf_append, List.filterMap_append]
  · have hsplit : s ++ ['\r', '\n'] ++ t = (s ++ ['\r']) ++ '\n' :: t := by simp
    rw [hsplit, linesOf_append, List.filterMap_append, words_return]

theorem accepts_append {eol : String} (heol : eol = "\n" ∨ eol = "\r\n") (s t w : String) :
    (ofText (s ++ eol ++ t)).accepts w ↔ (ofText s).accepts w ∨ (ofText t).accepts w := by
  have hlist : eol.toList = ['\n'] ∨ eol.toList = ['\r', '\n'] := by
    rcases heol with rfl | rfl
    · exact .inl rfl
    · exact .inr rfl
  simp only [accepts, List.contains_iff_mem, ofText, mem_ofLines, String.toList_append,
    words_append hlist, List.mem_append]

/-- A file is refused exactly when it spells no text. Otherwise the words of its lines are the
dictionary, in any case and each once; files with a line end between them add up, and it does not
matter which of the two line ends a file has. -/
theorem holds_words :
    (∀ bytes : ByteArray, read bytes.data.toList =
      (ofBytes bytes).map fun d => d.words.toFinset) ∧
    (∀ (bytes : ByteArray) (e : ReadError),
      ofBytes bytes = .error e ↔ e = .invalidData ∧ ¬ bytes.IsValidUTF8) ∧
    (∀ text : String, ∃ d, ofBytes text.toByteArray = .ok d ∧
      (∀ w : String, d.accepts w ↔ Word w.toList ∧ Listed text.toList w.toList) ∧
      d.size = {u | ∃ w, Word w ∧ Listed text.toList w ∧ upper w = u}.ncard) ∧
    (∀ s eol t : String, eol = "\n" ∨ eol = "\r\n" → ∃ d₁ d₂ d,
      ofBytes s.toByteArray = .ok d₁ ∧ ofBytes t.toByteArray = .ok d₂ ∧
      ofBytes (s.toByteArray ++ eol.toByteArray ++ t.toByteArray) = .ok d ∧
      ∀ w, d.accepts w ↔ d₁.accepts w ∨ d₂.accepts w) ∧
    ∀ text : String, ofBytes (crlf text.toList).utf8Encode = ofBytes text.toByteArray := by
  refine ⟨read_eq, fun bytes e => ?_, fun text => ?_, fun s eol t heol => ?_, fun text => ?_⟩
  · by_cases hvalid : bytes.IsValidUTF8
    · obtain ⟨cs, rfl⟩ := hvalid
      rw [← String.toByteArray_ofList, ofBytes_text]
      simp [ByteArray.isValidUTF8_utf8Encode]
    · simp [ofBytes_invalid hvalid, hvalid, eq_comm]
  · exact ⟨_, ofBytes_text text, fun w => accepts_ofText, size_ofText text⟩
  · refine ⟨_, _, _, ofBytes_text s, ofBytes_text t, ?_, accepts_append heol s t⟩
    rw [← String.toByteArray_append, ← String.toByteArray_append, ofBytes_text]
  · rw [← String.toByteArray_ofList, ofBytes_text, ofBytes_text, ofText, ofText, ofLines, ofLines,
      String.toList_ofList, words_crlf]

end TileRace.Dictionary
