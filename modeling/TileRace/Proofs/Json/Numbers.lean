import TileRace.Proofs.Json.Strings

namespace TileRace.Json

open TileRace.Text

variable {c : Char} {xs rest : List Symbol} {before : List Token} {n n' : Numeral}
  {t : Token} {cs ds : List Char}

theorem lexFrom_number (h : cs.foldlM Numeral.feed n = some n') :
    lexFrom (.number n) before (plain cs ++ rest) = lexFrom (.number n') before rest := by
  induction cs generalizing n with
  | nil =>
    obtain rfl := Option.some.inj h
    rfl
  | cons c cs ih =>
    rw [List.foldlM_cons] at h
    obtain ⟨n₁, hfeed, h⟩ := Option.bind_eq_some_iff.1 h
    have hread : (Mode.number n).read (some c) = some (.number n₁, []) := by
      rw [Mode.read, hfeed]
    exact (lexFrom_cons hread).trans (ih h)

theorem lexFrom_ending (h : n.finish = some t) (hrest : Delimited rest) :
    lexFrom (.number n) before rest = lexFrom .between (t :: before) rest := by
  cases rest with
  | nil => simp [lexFrom, Mode.finish, h]
  | cons x rest =>
    obtain ⟨c, hc, rfl⟩ := hrest x rfl
    have hfeed : n.feed c = none := by
      have hplain : c.isDigit = false ∧ c ≠ '0' ∧ c ≠ '.' ∧ c ≠ 'e' ∧ c ≠ 'E' ∧ c ≠ '+' ∧
          c ≠ '-' := by
        obtain rfl | rfl | rfl | rfl | rfl | rfl | rfl | rfl : c = ' ' ∨ c = '\t' ∨ c = '\n' ∨
          c = '\r' ∨ c = ',' ∨ c = ':' ∨ c = ']' ∨ c = '\x7d' := by simpa [endings, spaces] using hc
        all_goals decide
      obtain ⟨hdigit, h0, hpoint, he, hE, hplus, hminus⟩ := hplain
      rw [Numeral.feed]
      split <;> simp [hdigit, h0, hpoint, he, hE, hplus, hminus]
    cases hs : start c with
    | none => simp [lexFrom, Mode.read, hfeed, h, hs]
    | some next => simp [lexFrom, Mode.read, hfeed, h, hs]

theorem start_of_isDigit (h : c.isDigit) :
    start c = ((⟨false, 0, .sign⟩ : Numeral).feed c).map fun n => (.number n, []) := by
  rw [start] <;> rintro rfl <;> exact absurd h (by decide)

theorem feed_digits {neg : Bool} {k : Nat} (h : ∀ c ∈ ds, c.isDigit) :
    ds.foldlM Numeral.feed ⟨neg, k, .whole⟩ = some ⟨neg, Nat.ofDigitChars 10 ds k, .whole⟩ := by
  induction ds generalizing k with
  | nil => rfl
  | cons d ds ih =>
    have hfeed : Numeral.feed ⟨neg, k, .whole⟩ d = some ⟨neg, k * 10 + (d.toNat - 48), .whole⟩ :=
      if_pos (h d List.mem_cons_self)
    rw [List.foldlM_cons, hfeed, Nat.ofDigitChars_cons, Nat.mul_comm 10]
    exact ih fun c hc => h c (List.mem_cons_of_mem _ hc)

theorem feed_idle (h : ∀ c ∈ ds, c.isDigit) (hn : n.place = .fraction ∨ n.place = .power) :
    ds.foldlM Numeral.feed n = some n := by
  induction ds with
  | nil => rfl
  | cons d ds ih =>
    have hfeed : n.feed d = some n := by
      have hd := h d List.mem_cons_self
      rw [Numeral.feed]
      obtain hn | hn := hn <;> simp [hn, hd]
    rw [List.foldlM_cons, hfeed]
    exact ih fun c hc => h c (List.mem_cons_of_mem _ hc)

theorem feed_asked {place : Place} (h : Digits ds)
    (hplace : place = .fraction ∨ place = .power)
    (hfeed : ∀ d, d.isDigit → n.feed d = some { n with place }) :
    ds.foldlM Numeral.feed n = some { n with place } := by
  obtain ⟨hne, hall⟩ := h
  cases ds with
  | nil => exact (hne rfl).elim
  | cons d ds =>
    rw [List.foldlM_cons, hfeed d (hall d List.mem_cons_self)]
    exact feed_idle (fun c hc => hall c (List.mem_cons_of_mem _ hc)) hplace

theorem feed_whole (p : NumberParts) (neg : Bool) : p.whole.foldlM Numeral.feed ⟨neg, 0, .sign⟩ =
    some ⟨neg, Nat.ofDigitChars 10 p.whole 0, if p.whole = ['0'] then .zero else .whole⟩ := by
  obtain hzero | ⟨⟨hne, hall⟩, hhead⟩ := p.whole_digits
  · rw [hzero]
    rfl
  · cases hw : p.whole with
    | nil => exact (hne hw).elim
    | cons d ds =>
      rw [hw] at hall hhead
      have hd0 : d ≠ '0' := fun h => hhead (congrArg some h)
      have hfeed : Numeral.feed ⟨neg, 0, .sign⟩ d = some ⟨neg, 0 * 10 + (d.toNat - 48), .whole⟩ :=
        (if_neg hd0).trans (if_pos (hall d List.mem_cons_self))
      have hplace : ¬ d :: ds = ['0'] := fun h => hd0 (List.cons.inj h).1
      rw [List.foldlM_cons, hfeed, if_neg hplace, Nat.ofDigitChars_cons, Nat.mul_comm 10]
      exact feed_digits fun c hc => hall c (List.mem_cons_of_mem _ hc)

theorem feed_fraction (p : NumberParts) (hn : n.place = .zero ∨ n.place = .whole) :
    ∃ place, p.fraction.foldlM Numeral.feed n = some { n with place } ∧
      (p.fraction = [] ∧ place = n.place ∨ p.fraction ≠ [] ∧ place = .fraction) := by
  obtain hnil | ⟨ds, hds, hcons⟩ := p.fraction_digits
  · exact ⟨n.place, by rw [hnil]; rfl, .inl ⟨hnil, rfl⟩⟩
  · have hpoint : n.feed '.' = some { n with place := .point } := by
      rw [Numeral.feed]
      obtain hn | hn := hn <;> rw [hn] <;> rfl
    refine ⟨.fraction, ?_, .inr ⟨by simp [hcons], rfl⟩⟩
    rw [hcons, List.foldlM_cons, hpoint]
    exact feed_asked hds (.inl rfl) fun d hd => if_pos hd

theorem feed_power (p : NumberParts)
    (hn : n.place = .zero ∨ n.place = .whole ∨ n.place = .fraction) :
    ∃ place, p.power.foldlM Numeral.feed n = some { n with place } ∧
      (p.power = [] ∧ place = n.place ∨ p.power ≠ [] ∧ place = .power) := by
  obtain hnil | ⟨e, s, ds, he, hs, hds, hcons⟩ := p.power_digits
  · exact ⟨n.place, by rw [hnil]; rfl, .inl ⟨hnil, rfl⟩⟩
  · have hpower : n.feed e = some { n with place := .exponent } := by
      rw [Numeral.feed]
      obtain hn | hn | hn := hn <;> obtain rfl | rfl := he <;> rw [hn] <;> rfl
    refine ⟨.power, ?_, .inr ⟨by simp [hcons], rfl⟩⟩
    rw [hcons, List.foldlM_cons, hpower]
    obtain rfl | rfl | rfl := hs
    · refine feed_asked hds (.inr rfl) fun d hd => (if_neg ?_).trans (if_pos hd)
      rintro (rfl | rfl) <;> exact absurd hd (by decide)
    · exact feed_asked (n := { n with place := .exponentSign }) hds (.inr rfl) fun d hd => if_pos hd
    · exact feed_asked (n := { n with place := .exponentSign }) hds (.inr rfl) fun d hd => if_pos hd

theorem NumberParts.whole_eq_cons (p : NumberParts) : ∃ d ds, p.whole = d :: ds ∧ d.isDigit := by
  obtain hzero | ⟨⟨hne, hall⟩, -⟩ := p.whole_digits
  · exact ⟨'0', [], hzero, rfl⟩
  · cases hw : p.whole with
    | nil => exact (hne hw).elim
    | cons d ds =>
      rw [hw] at hall
      exact ⟨d, ds, rfl, hall d List.mem_cons_self⟩

theorem NumberParts.lexes (p : NumberParts)
    (h : (p.whole ++ (p.fraction ++ p.power)).foldlM Numeral.feed ⟨p.sign ≠ [], 0, .sign⟩ = some n)
    (ht : n.finish = some t) : Lexes (plain p.text) [t] := by
  intro before rest hrest
  rw [NumberParts.text]
  obtain hsign | hsign := p.signed <;> rw [hsign] at h ⊢
  · obtain ⟨d, ds, hwhole, hd⟩ := p.whole_eq_cons
    rw [hwhole, List.cons_append, List.foldlM_cons] at h
    obtain ⟨n₁, hfeed, h⟩ := Option.bind_eq_some_iff.1 h
    have hread : Mode.between.read (some d) = some (.number n₁, []) := by
      rw [Mode.read, start_of_isDigit hd]
      exact congrArg (Option.map _) hfeed
    rw [hwhole]
    exact (lexFrom_cons hread).trans ((lexFrom_number h).trans (lexFrom_ending ht hrest))
  · have hread : Mode.between.read (some '-') = some (.number ⟨true, 0, .sign⟩, []) := rfl
    exact (lexFrom_cons hread).trans ((lexFrom_number h).trans (lexFrom_ending ht hrest))

theorem lexes_real (h : SpellsReal xs) : Lexes xs [.real] := by
  obtain ⟨p, rfl, hreal⟩ := h
  obtain ⟨place, hfraction, hplace⟩ := feed_fraction p
    (n := ⟨p.sign ≠ [], Nat.ofDigitChars 10 p.whole 0, if p.whole = ['0'] then .zero else .whole⟩)
    (by split <;> simp)
  obtain ⟨place', hpower, hplace'⟩ := feed_power p
    (n := ⟨p.sign ≠ [], Nat.ofDigitChars 10 p.whole 0, place⟩)
    (by obtain ⟨-, rfl⟩ | ⟨-, rfl⟩ := hplace <;> dsimp only <;> (try split) <;> simp)
  refine p.lexes (n := ⟨p.sign ≠ [], Nat.ofDigitChars 10 p.whole 0, place'⟩) ?_ ?_
  · rw [List.foldlM_append, feed_whole]
    refine (List.foldlM_append).trans ?_
    rw [hfraction]
    exact hpower
  · obtain ⟨hwithout, rfl⟩ | ⟨-, rfl⟩ := hplace'
    · obtain ⟨hwhole, rfl⟩ | ⟨-, rfl⟩ := hplace
      · obtain h | h | ⟨hsign, hzero⟩ := hreal
        · exact (h hwhole).elim
        · exact (h hwithout).elim
        · simp [Numeral.finish, hsign, hzero]
      · rfl
    · rfl

theorem head?_toDigits {k : Nat} (hk : k ≠ 0) : (Nat.toDigits 10 k).head? ≠ some '0' := by
  induction k using Nat.strongRecOn with
  | ind k ih =>
    rw [Nat.toDigits_eq_if (by decide)]
    split
    · simpa using hk
    · rw [List.head?_append, Option.or_of_isSome (by simp [Nat.toDigits_ne_nil])]
      exact ih (k / 10) (by omega) (by omega)

def intParts (n : Int) : NumberParts where
  sign := if n < 0 then ['-'] else []
  whole := Nat.toDigits 10 n.natAbs
  fraction := []
  power := []
  signed := by split <;> simp
  whole_digits := by
    by_cases hn : n.natAbs = 0
    · rw [hn]
      exact .inl rfl
    · refine .inr ⟨⟨Nat.toDigits_ne_nil, fun c hc => ?_⟩, head?_toDigits hn⟩
      exact Nat.isDigit_of_mem_toDigits (by decide) (by decide) hc
  fraction_digits := .inl rfl
  power_digits := .inl rfl

theorem lexes_int (n : Int) : Lexes (plain (renderInt n)) [.int n] := by
  have htext : renderInt n = (intParts n).text := by
    rw [renderInt, NumberParts.text, intParts]
    split <;> simp
  rw [htext]
  have hmagnitude : Nat.ofDigitChars 10 (intParts n).whole 0 = n.natAbs :=
    Nat.ofDigitChars_toDigits (by decide) (by decide)
  have hzero : (intParts n).whole = ['0'] ↔ n = 0 := by
    refine ⟨fun h => ?_, fun h => by rw [h]; rfl⟩
    rw [h] at hmagnitude
    exact Int.natAbs_eq_zero.1 hmagnitude.symm
  refine (intParts n).lexes (n := ⟨(intParts n).sign ≠ [], n.natAbs,
    if (intParts n).whole = ['0'] then .zero else .whole⟩) ?_ ?_
  · have hnil : (intParts n).fraction ++ (intParts n).power = [] := rfl
    rw [hnil, List.append_nil, feed_whole, hmagnitude]
  · have hsign : (intParts n).sign ≠ [] ↔ n < 0 := by
      rw [intParts]
      split <;> simp_all
    simp only [hzero, hsign]
    by_cases hn : n = 0
    · rw [if_pos hn, hn]
      rfl
    · rw [if_neg hn, Numeral.finish]
      simp only [decide_eq_true_eq]
      refine congrArg (fun k => some (Token.int k)) ?_
      split <;> omega

end TileRace.Json
