import TileRace.Proofs.Json.Grammar

namespace TileRace.Json

open TileRace.Text

def endings : List Char := spaces ++ [',', ':', ']', '\x7d']

def Delimited (xs : List Symbol) : Prop := ∀ x ∈ xs.head?, ∃ c ∈ endings, x = some c

/-- A text that is read as some tokens, wherever it stands. -/
def Lexes (xs : List Symbol) (ts : List Token) : Prop := ∀ before rest, Delimited rest →
  lexFrom .between before (xs ++ rest) = lexFrom .between (ts.reverse ++ before) rest

variable {c : Char} {m m' : Mode} {x : Symbol} {s ps : List Piece} {xs ys rest : List Symbol}
  {before ts : List Token}

theorem lexFrom_cons (h : m.read x = some (m', ts)) :
    lexFrom m before (x :: rest) = lexFrom m' (ts.reverse ++ before) rest := by
  rw [lexFrom, h]

theorem escaped?_of_mem {e : Char} (h : (e, c) ∈ shortEscapes) : e ≠ 'u' ∧ escaped? e = some c := by
  have hall : ∀ p ∈ shortEscapes, p.1 ≠ 'u' ∧ escaped? p.1 = some p.2 := by decide
  exact hall _ h

theorem hexDigit?_of_isHexDigit {n : Nat} (h : IsHexDigit n c) : hexDigit? c = some n := by
  have hall : ∀ n < 16, hexDigit? (Nat.digitChar n) = some n ∧
      hexDigit? (Nat.digitChar n).toUpper = some n := by decide
  obtain ⟨hn, rfl | rfl⟩ := h
  · exact (hall n hn).1
  · exact (hall n hn).2

theorem lexFrom_letter (h : SpellsLetter c xs) :
    lexFrom (.string s) before (xs ++ rest) = lexFrom (.string (.char c :: s)) before rest := by
  cases h with
  | plain low quote slash =>
    have hread : (Mode.string s).read (some c) = some (.string (.char c :: s), []) := by
      rw [Mode.read]
      · exact if_neg (Nat.not_lt.2 low)
      · rintro ⟨⟩
        exact quote rfl
      · rintro ⟨⟩
        exact slash rfl
    rw [List.singleton_append, lexFrom_cons hread]
    rfl
  | @short e c h =>
    obtain ⟨hu, he⟩ := escaped?_of_mem h
    have hread : (Mode.escape s).read (some e) = some (.string (.char c :: s), []) := by
      rw [Mode.read]
      · rw [he]
        rfl
      · rintro ⟨⟩
        exact hu rfl
    have hslash : (Mode.string s).read (some '\\') = some (.escape s, []) := rfl
    exact (lexFrom_cons hslash).trans (lexFrom_cons hread)

theorem read_hex {left u n : Nat} (h : IsHexDigit n c) : (Mode.hex s left u).read (some c) =
    if left ≤ 1 then some (.string (.unit (u * 16 + n) :: s), [])
    else some (.hex s (left - 1) (u * 16 + n), []) := by
  rw [Mode.read, hexDigit?_of_isHexDigit h, Option.map_some]
  split <;> rfl

theorem lexFrom_unit {u : Nat} (h : SpellsUnit u xs) :
    lexFrom (.string s) before (xs ++ rest) = lexFrom (.string (.unit u :: s)) before rest := by
  obtain ⟨first, second, third, fourth⟩ := h
  have hslash : (Mode.string s).read (some '\\') = some (.escape s, []) := rfl
  have hu : (Mode.escape s).read (some 'u') = some (.hex s 4 0, []) := rfl
  refine (lexFrom_cons hslash).trans ?_
  refine (lexFrom_cons hu).trans ?_
  refine (lexFrom_cons (read_hex first)).trans ?_
  refine (lexFrom_cons (read_hex second)).trans ?_
  refine (lexFrom_cons (read_hex third)).trans ?_
  refine (lexFrom_cons (read_hex fourth)).trans ?_
  simp

theorem lexFrom_piece {p : Piece} (h : SpellsPiece p xs) :
    lexFrom (.string s) before (xs ++ rest) = lexFrom (.string (p :: s)) before rest := by
  cases h with
  | char h => exact lexFrom_letter h
  | unit h => exact lexFrom_unit h
  | stray => exact lexFrom_cons (m := .string s) (x := none) rfl

theorem lexFrom_pieces (h : Joined SpellsPiece ps xs) :
    lexFrom (.string s) before (xs ++ rest) = lexFrom (.string (ps.reverse ++ s)) before rest := by
  induction h generalizing s with
  | nil => rfl
  | cons head tail ih =>
    rw [List.append_assoc, lexFrom_piece head, ih, List.reverse_cons, List.append_assoc]
    rfl

theorem assemble_unit {u : Nat} (hu : u < 0xD800 ∨ 0xE000 ≤ u) :
    assemble (.unit u :: ps) = (assemble ps).map (Char.ofNat u :: ·) := by
  have hhigh : ¬ (0xD800 ≤ u ∧ u < 0xDC00) := by omega
  have hlow : ¬ (0xDC00 ≤ u ∧ u < 0xE000) := by omega
  have hnone : ¬ (0xD800 ≤ u ∧ u < 0xE000) := by omega
  cases ps with
  | nil => simp only [assemble, if_neg hnone]
  | cons p ps =>
    cases p with
    | unit v => rw [assemble, if_neg hhigh, if_neg hlow]
    | char | stray => simp only [assemble, if_neg hnone]

theorem assemble_pair {u v : Nat} (hu : 0xD800 ≤ u ∧ u < 0xDC00) (hv : 0xDC00 ≤ v ∧ v < 0xE000) :
    assemble (.unit u :: .unit v :: ps) = (assemble ps).map
      (Char.ofNat (0x10000 + (u - 0xD800) * 0x400 + (v - 0xDC00)) :: ·) := by
  rw [assemble, if_pos hu, if_pos hv]

theorem not_surrogate (c : Char) : (c.toNat < 0xD800 ∨ 0xE000 ≤ c.toNat) ∧ c.toNat < 0x110000 := by
  obtain hc | ⟨hc, hlt⟩ : c.toNat < 0xD800 ∨ 0xDFFF < c.toNat ∧ c.toNat < 0x110000 := c.valid
  · exact ⟨.inl hc, by omega⟩
  · exact ⟨.inr hc, hlt⟩

theorem SpellsUnit.lt {u : Nat} (h : SpellsUnit u xs) : u < 0x10000 := by
  obtain ⟨⟨hp, -⟩, ⟨hq, -⟩, ⟨hr, -⟩, hs, -⟩ := h
  omega

theorem pieces_of_spellsText {cs : List Char} (h : Joined SpellsChar cs xs) :
    ∃ ps, Joined SpellsPiece ps xs ∧ assemble ps = some cs := by
  induction h with
  | nil => exact ⟨[], .nil, rfl⟩
  | @cons c cs xs ys head tail ih =>
    obtain ⟨ps, hps, hcs⟩ := ih
    cases head with
    | letter h => exact ⟨.char c :: ps, .cons (.char h) hps, by rw [assemble, hcs]; rfl⟩
    | unit h =>
      refine ⟨.unit c.toNat :: ps, .cons (.unit h) hps, ?_⟩
      rw [assemble_unit (by have := h.lt; have := not_surrogate c; omega), hcs, Option.map_some,
        Char.ofNat_toNat]
    | pair beyond high low =>
      have hpair := Joined.cons (.unit high) (.cons (.unit low) hps)
      rw [← List.append_assoc] at hpair
      refine ⟨_, hpair, ?_⟩
      have hlt : c.toNat < 0x110000 := (not_surrogate c).2
      have hc : 0x10000 + (0xD800 + (c.toNat - 0x10000) / 0x400 - 0xD800) * 0x400 +
          (0xDC00 + (c.toNat - 0x10000) % 0x400 - 0xDC00) = c.toNat := by omega
      rw [assemble_pair (by omega) (by omega), hcs, Option.map_some, hc, Char.ofNat_toNat]

theorem toNat_ofNat {n : Nat} (h : n < 0xD800 ∨ 0xE000 ≤ n) (hlt : n < 0x110000) :
    (Char.ofNat n).toNat = n := by
  have hvalid : n.isValidChar := h.imp_right fun h => ⟨h, hlt⟩
  rw [Char.ofNat, dif_pos hvalid]
  rfl

theorem joined_unit {u : Nat} (h : Joined SpellsPiece (.unit u :: ps) xs) : ∃ ys zs,
    SpellsUnit u ys ∧ Joined SpellsPiece ps zs ∧ xs = ys ++ zs := by
  cases h with
  | cons head tail =>
    cases head with
    | unit h => exact ⟨_, _, h, tail, rfl⟩

theorem spellsText_of_pieces {cs : List Char} (h : Joined SpellsPiece ps xs)
    (hcs : assemble ps = some cs) : Joined SpellsChar cs xs := by
  fun_induction assemble ps generalizing xs cs with
  | case1 =>
    cases h
    cases hcs
    exact .nil
  | case2 c r ih =>
    obtain ⟨cs, hr, rfl⟩ := Option.map_eq_some_iff.1 hcs
    cases h with
    | cons head tail =>
      cases head with
      | char h => exact .cons (.letter h) (ih tail hr)
  | case3 | case5 | case6 | case8 => cases hcs
  | case4 u v r hu hv ih =>
    obtain ⟨cs, hr, rfl⟩ := Option.map_eq_some_iff.1 hcs
    obtain ⟨xs, _, high, hnext, rfl⟩ := joined_unit h
    obtain ⟨ys, zs, low, htail, rfl⟩ := joined_unit hnext
    have hc := toNat_ofNat (n := 0x10000 + (u - 0xD800) * 0x400 + (v - 0xDC00))
      (by omega) (by omega)
    have hhigh :
        0xD800 + (0x10000 + (u - 0xD800) * 0x400 + (v - 0xDC00) - 0x10000) / 0x400 = u := by omega
    have hlow :
        0xDC00 + (0x10000 + (u - 0xD800) * 0x400 + (v - 0xDC00) - 0x10000) % 0x400 = v := by omega
    rw [← List.append_assoc]
    refine .cons (.pair ?_ ?_ ?_) (ih htail hr)
    · omega
    · rwa [hc, hhigh]
    · rwa [hc, hlow]
  | case7 u v r hhigh hlow ih =>
    obtain ⟨cs, hr, rfl⟩ := Option.map_eq_some_iff.1 hcs
    obtain ⟨xs, ys, unit, htail, rfl⟩ := joined_unit h
    have hlt := unit.lt
    refine .cons (.unit ?_) (ih htail hr)
    rwa [toNat_ofNat (by omega) (by omega)]
  | case9 u r hnone hsur ih =>
    obtain ⟨cs, hr, rfl⟩ := Option.map_eq_some_iff.1 hcs
    obtain ⟨xs, ys, unit, htail, rfl⟩ := joined_unit h
    have hlt := unit.lt
    refine .cons (.unit ?_) (ih htail hr)
    rwa [toNat_ofNat (by omega) (by omega)]

theorem lexes_string {s : Option String} (h : SpellsString s xs) : Lexes xs [.str s] := by
  obtain ⟨ys, ps, hps, hs, rfl⟩ : ∃ ys ps, Joined SpellsPiece ps ys ∧
      (assemble ps).map String.ofList = s ∧ xs = quote ys := by
    cases s with
    | some s =>
      obtain ⟨ys, hys, rfl⟩ := h
      obtain ⟨ps, hps, hs⟩ := pieces_of_spellsText hys
      exact ⟨ys, ps, hps, by rw [hs, Option.map_some, String.ofList_toList], rfl⟩
    | none =>
      obtain ⟨ys, ⟨⟨ps, hps⟩, hnone⟩, rfl⟩ := h
      refine ⟨ys, ps, hps, ?_, rfl⟩
      cases hcs : assemble ps with
      | none => rfl
      | some cs =>
        refine (hnone (String.ofList cs) ?_).elim
        rw [SpellsText, String.toList_ofList]
        exact spellsText_of_pieces hps hcs
  intro before rest _
  have hopen : Mode.between.read (some '"') = some (.string [], []) := rfl
  have hclose : (Mode.string (ps.reverse ++ [])).read (some '"') = some (.between, [.str s]) := by
    rw [Mode.read, List.append_nil, List.reverse_reverse, hs]
  rw [quote, List.cons_append, lexFrom_cons hopen, List.append_assoc, lexFrom_pieces hps,
    List.singleton_append, lexFrom_cons hclose]
  rfl

end TileRace.Json
