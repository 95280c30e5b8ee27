import TileRace.Proofs.Json.Parsing

namespace TileRace.Json

open TileRace.Text

variable {v : Json} {xs : List Symbol}

theorem blank_nil : Blank [] := ⟨[], by simp, rfl⟩

theorem padded_self {spells : List Symbol → Prop} (h : spells xs) : Padded spells xs :=
  ⟨[], xs, [], blank_nil, h, blank_nil, by simp⟩

theorem plain_append (cs ds : List Char) : plain (cs ++ ds) = plain cs ++ plain ds :=
  List.map_append

theorem plain_cons (c : Char) (cs : List Char) : plain (c :: cs) = some c :: plain cs := rfl

theorem isHexDigit_digitChar {n : Nat} (h : n < 16) : IsHexDigit n (Nat.digitChar n) :=
  ⟨h, .inl rfl⟩

theorem spellsChar_renderChar (c : Char) : SpellsChar c (plain (renderChar c)) := by
  have hshort (e d : Char) (h : (e, d) ∈ shortEscapes) : SpellsChar d (plain ['\\', e]) :=
    .letter (.short h)
  unfold renderChar
  split
  · exact hshort '"' '"' (by decide)
  · exact hshort '\\' '\\' (by decide)
  · exact hshort 'b' '\x08' (by decide)
  · exact hshort 'f' '\x0c' (by decide)
  · exact hshort 'n' '\n' (by decide)
  · exact hshort 'r' '\r' (by decide)
  · exact hshort 't' '\t' (by decide)
  rename_i hquote hslash _ _ _ _ _
  split
  · rename_i hlow
    have hdigits := SpellsUnit.digits (isHexDigit_digitChar (n := 0) (by decide))
      (isHexDigit_digitChar (n := 0) (by decide))
      (isHexDigit_digitChar (n := c.toNat / 16) (by omega))
      (isHexDigit_digitChar (n := c.toNat % 16) (by omega))
    have hc : ((0 * 16 + 0) * 16 + c.toNat / 16) * 16 + c.toNat % 16 = c.toNat := by omega
    rw [hc] at hdigits
    exact .unit hdigits
  · rename_i hlow
    exact .letter (.plain (Nat.not_lt.1 hlow) hquote hslash)

theorem joined_flatMap_renderChar (cs : List Char) :
    Joined SpellsChar cs (plain (cs.flatMap renderChar)) := by
  induction cs with
  | nil => exact .nil
  | cons c cs ih =>
    rw [List.flatMap_cons, plain_append]
    exact .cons (spellsChar_renderChar c) ih

theorem assemble_unique {ps qs : List Piece} (hp : Joined SpellsPiece ps xs)
    (hq : Joined SpellsPiece qs xs) :
    (assemble ps).map String.ofList = (assemble qs).map String.ofList := by
  have hlex {rs : List Piece} (h : Joined SpellsPiece rs xs) :
      lexFrom (.string []) [] (xs ++ [some '"']) =
        some [.str ((assemble rs).map String.ofList)] := by
    rw [lexFrom_pieces h, lexFrom, Mode.read, List.append_nil, List.reverse_reverse]
    rfl
  have hsame := (hlex hp).symm.trans (hlex hq)
  simpa using hsame

theorem garbled_surrogate : Garbled (plain ['\\', 'u', 'd', '8', '0', '0']) := by
  have hunit : SpellsUnit 0xD800 (plain ['\\', 'u', 'd', '8', '0', '0']) :=
    .digits (isHexDigit_digitChar (n := 13) (by decide)) (isHexDigit_digitChar (n := 8) (by decide))
      (isHexDigit_digitChar (n := 0) (by decide)) (isHexDigit_digitChar (n := 0) (by decide))
  have hpiece := Joined.cons (SpellsPiece.unit hunit) .nil
  rw [List.append_nil] at hpiece
  refine ⟨⟨_, hpiece⟩, fun s hs => ?_⟩
  obtain ⟨ps, hps, htext⟩ := pieces_of_spellsText hs
  have hsame := assemble_unique hps hpiece
  rw [htext] at hsame
  cases hsame

theorem spellsString_renderText (s : Option String) : SpellsString s (plain (renderText s)) := by
  cases s with
  | some s =>
    refine ⟨_, joined_flatMap_renderChar s.toList, ?_⟩
    rw [renderText, List.cons_append, plain_cons, plain_append]
    rfl
  | none => exact ⟨_, garbled_surrogate, rfl⟩

theorem spellsReal_zero : SpellsReal (plain ['0', '.', '0']) := by
  let p : NumberParts :=
    { sign := []
      whole := ['0']
      fraction := ['.', '0']
      power := []
      signed := .inl rfl
      whole_digits := .inl rfl
      fraction_digits := .inr ⟨['0'], ⟨by simp, by simp⟩, rfl⟩
      power_digits := .inl rfl }
  exact ⟨p, rfl, .inl (by simp [p])⟩

mutual

theorem spells_render : ∀ v : Json, Spells v (plain v.render)
  | .null | .bool true | .bool false | .int _ => by rw [Spells, render]
  | .real => by
    rw [Spells, render]
    exact spellsReal_zero
  | .str s => by
    rw [Spells, render]
    exact spellsString_renderText s
  | .arr [] | .obj [] => by
    rw [Spells, render]
    exact ⟨[], blank_nil, rfl⟩
  | .arr (v :: vs) => by
    rw [Spells, render]
    refine ⟨_, _, padded_self (spells_render v), spellsItems_renderItems vs, ?_⟩
    rw [plain_cons, plain_append]
  | .obj ((k, v) :: ms) => by
    rw [Spells, render]
    refine ⟨_, _, _, padded_self (spellsString_renderText k), padded_self (spells_render v),
      spellsMembers_renderMembers ms, ?_⟩
    rw [plain_cons, plain_append, plain_cons, plain_append]

theorem spellsItems_renderItems : ∀ vs : List Json, SpellsItems vs (plain (renderItems vs))
  | [] => by
    rw [SpellsItems, renderItems]
    rfl
  | v :: vs => by
    rw [SpellsItems, renderItems]
    refine ⟨_, _, padded_self (spells_render v), spellsItems_renderItems vs, ?_⟩
    rw [plain_cons, plain_append]

theorem spellsMembers_renderMembers : ∀ ms : List (Option String × Json),
    SpellsMembers ms (plain (renderMembers ms))
  | [] => by
    rw [SpellsMembers, renderMembers]
    rfl
  | (k, v) :: ms => by
    rw [SpellsMembers, renderMembers]
    refine ⟨_, _, _, padded_self (spellsString_renderText k), padded_self (spells_render v),
      spellsMembers_renderMembers ms, ?_⟩
    rw [plain_cons, plain_append, plain_cons, plain_append]

end

theorem parse?_render (v : Json) : parse? (plain v.render) = some v :=
  parse?_padded (padded_self (spells_render v))

end TileRace.Json
