import TileRace.Proofs.Json.Numbers

namespace TileRace.Json

open TileRace.Text

variable {c : Char} {xs ys rest : List Symbol} {before ts : List Token}

mutual

def tokens : Json → List Token
  | .null => [.null]
  | .bool b => [.bool b]
  | .int n => [.int n]
  | .real => [.real]
  | .str s => [.str s]
  | .arr [] => [.openBracket, .closeBracket]
  | .arr (v :: vs) => .openBracket :: (tokens v ++ itemTokens vs)
  | .obj [] => [.openBrace, .closeBrace]
  | .obj ((k, v) :: ms) => .openBrace :: .str k :: .colon :: (tokens v ++ memberTokens ms)

def itemTokens : List Json → List Token
  | [] => [.closeBracket]
  | v :: vs => .comma :: (tokens v ++ itemTokens vs)

def memberTokens : List (Option String × Json) → List Token
  | [] => [.closeBrace]
  | (k, v) :: ms => .comma :: .str k :: .colon :: (tokens v ++ memberTokens ms)

end

theorem lexFrom_blank (h : Blank xs) :
    lexFrom .between before (xs ++ rest) = lexFrom .between before rest := by
  obtain ⟨cs, hcs, rfl⟩ := h
  induction cs with
  | nil => rfl
  | cons c cs ih =>
    have hread : Mode.between.read (some c) = some (.between, []) := by
      obtain rfl | rfl | rfl | rfl : c = ' ' ∨ c = '\t' ∨ c = '\n' ∨ c = '\r' := by
        simpa [spaces] using hcs c List.mem_cons_self
      all_goals rfl
    exact (lexFrom_cons hread).trans (ih fun d hd => hcs d (List.mem_cons_of_mem _ hd))

theorem Delimited.blank_append (h : Blank xs) (hrest : Delimited rest) :
    Delimited (xs ++ rest) := by
  obtain ⟨cs, hcs, rfl⟩ := h
  cases cs with
  | nil => exact hrest
  | cons c cs =>
    rintro x ⟨⟩
    exact ⟨c, List.mem_append_left _ (hcs c List.mem_cons_self), rfl⟩

theorem delimited_cons (hc : c ∈ endings) : Delimited (some c :: rest) := by
  rintro x ⟨⟩
  exact ⟨c, hc, rfl⟩

theorem Lexes.padded {spells : List Symbol → Prop} (h : ∀ ys, spells ys → Lexes ys ts)
    (hx : Padded spells xs) : Lexes xs ts := by
  obtain ⟨front, ys, back, hfront, hys, hback, rfl⟩ := hx
  intro before rest hrest
  rw [List.append_assoc, lexFrom_blank hfront, List.append_assoc,
    h ys hys before _ (hrest.blank_append hback), lexFrom_blank hback]

theorem delimited_spellsItems {vs : List Json} (h : SpellsItems vs xs) :
    Delimited (xs ++ rest) := by
  cases vs with
  | nil =>
    rw [SpellsItems] at h
    subst h
    exact delimited_cons (by decide)
  | cons v vs =>
    rw [SpellsItems] at h
    obtain ⟨ys, zs, -, -, rfl⟩ := h
    exact delimited_cons (by decide)

theorem delimited_spellsMembers {ms : List (Option String × Json)} (h : SpellsMembers ms xs) :
    Delimited (xs ++ rest) := by
  cases ms with
  | nil =>
    rw [SpellsMembers] at h
    subst h
    exact delimited_cons (by decide)
  | cons m ms =>
    rw [SpellsMembers] at h
    obtain ⟨ks, ys, zs, -, -, -, rfl⟩ := h
    exact delimited_cons (by decide)

theorem Lexes.append {us : List Token} (h : Lexes xs ts) (h' : Lexes ys us)
    (hd : ∀ rest, Delimited rest → Delimited (ys ++ rest)) : Lexes (xs ++ ys) (ts ++ us) := by
  intro before rest hrest
  rw [List.append_assoc, h before _ (hd rest hrest), h' _ rest hrest, List.reverse_append,
    List.append_assoc]

theorem Lexes.mark {t : Token} (hc : Mode.between.read (some c) = some (.between, [t]))
    (h : Lexes xs ts) : Lexes (some c :: xs) (t :: ts) := by
  intro before rest hrest
  rw [List.cons_append, lexFrom_cons hc, h _ rest hrest]
  simp

theorem Lexes.blank_append (h : Lexes xs ts) (hb : Blank ys) : Lexes (ys ++ xs) ts := by
  intro before rest hrest
  rw [List.append_assoc, lexFrom_blank hb, h before rest hrest]

theorem lexes_nil : Lexes [] [] := fun _ _ _ => rfl

theorem lexes_member {k : Option String} {ks zs : List Symbol} {us : List Token}
    (hk : Padded (SpellsString k) ks) (hv : Lexes ys ts) (hz : Lexes zs us)
    (hd : ∀ rest, Delimited (zs ++ rest)) :
    Lexes (ks ++ some ':' :: (ys ++ zs)) (.str k :: .colon :: (ts ++ us)) :=
  (Lexes.padded (fun _ => lexes_string) hk).append
    ((hv.append hz fun rest _ => hd rest).mark rfl) fun _ _ => delimited_cons (by decide)

mutual

/-- Every spelling of a value is read as its tokens. -/
theorem Spells.lexes : ∀ (v : Json) {xs : List Symbol}, Spells v xs → Lexes xs v.tokens
  | .null, xs, h | .bool true, xs, h | .bool false, xs, h => by
    rw [Spells] at h
    subst h
    exact fun _ _ _ => rfl
  | .int n, xs, h => by
    rw [Spells] at h
    subst h
    exact lexes_int n
  | .real, xs, h => by
    rw [Spells] at h
    exact lexes_real h
  | .str s, xs, h => by
    rw [Spells] at h
    exact lexes_string h
  | .arr [], xs, h | .obj [], xs, h => by
    rw [Spells] at h
    obtain ⟨ys, hys, rfl⟩ := h
    exact .mark rfl (.blank_append (.mark rfl lexes_nil) hys)
  | .arr (v :: vs), xs, h => by
    rw [Spells] at h
    obtain ⟨ys, zs, hys, hzs, rfl⟩ := h
    have hv : Lexes ys v.tokens := .padded (fun _ => Spells.lexes v) hys
    exact .mark rfl (hv.append (SpellsItems.lexes vs hzs) fun _ _ => delimited_spellsItems hzs)
  | .obj ((k, v) :: ms), xs, h => by
    rw [Spells] at h
    obtain ⟨ks, ys, zs, hks, hys, hzs, rfl⟩ := h
    have hv : Lexes ys v.tokens := .padded (fun _ => Spells.lexes v) hys
    exact .mark rfl (lexes_member hks hv (SpellsMembers.lexes ms hzs)
      fun _ => delimited_spellsMembers hzs)

theorem SpellsItems.lexes : ∀ (vs : List Json) {xs : List Symbol}, SpellsItems vs xs →
    Lexes xs (itemTokens vs)
  | [], xs, h => by
    rw [SpellsItems] at h
    subst h
    exact .mark rfl lexes_nil
  | v :: vs, xs, h => by
    rw [SpellsItems] at h
    obtain ⟨ys, zs, hys, hzs, rfl⟩ := h
    have hv : Lexes ys v.tokens := .padded (fun _ => Spells.lexes v) hys
    exact .mark rfl (hv.append (SpellsItems.lexes vs hzs) fun _ _ => delimited_spellsItems hzs)

theorem SpellsMembers.lexes : ∀ (ms : List (Option String × Json)) {xs : List Symbol},
    SpellsMembers ms xs → Lexes xs (memberTokens ms)
  | [], xs, h => by
    rw [SpellsMembers] at h
    subst h
    exact .mark rfl lexes_nil
  | (k, v) :: ms, xs, h => by
    rw [SpellsMembers] at h
    obtain ⟨ks, ys, zs, hks, hys, hzs, rfl⟩ := h
    have hv : Lexes ys v.tokens := .padded (fun _ => Spells.lexes v) hys
    exact .mark rfl (lexes_member hks hv (SpellsMembers.lexes ms hzs)
      fun _ => delimited_spellsMembers hzs)

end

theorem lex_padded {v : Json} (h : Padded (Spells v) xs) : lex xs = some v.tokens := by
  have hlex := Lexes.padded (fun _ => Spells.lexes v) h [] [] nofun
  rw [List.append_nil] at hlex
  rw [lex, hlex]
  simp [lexFrom, Mode.finish]

end TileRace.Json
