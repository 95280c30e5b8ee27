import TileRace.Json.Parser
import TileRace.Proofs.Json.Lexing

namespace TileRace.Json

open TileRace.Text

variable {outer : List Enclosure} {rest : List Token}

theorem run_cons {d e : Expect} {t : Token} (h : d.read t = some e) :
    d.run (t :: rest) = e.run rest := by
  rw [Expect.run, h]

theorem run_item (v : Json) : (Expect.item outer).run (v.tokens ++ rest) =
    (Expect.value (.arr [] :: outer)).run (v.tokens ++ rest) := by
  cases v with
  | arr vs => cases vs <;> rfl
  | obj ms => cases ms <;> rfl
  | _ => rfl

mutual

theorem run_tokens : ∀ (v : Json) (outer : List Enclosure) (rest : List Token),
    (Expect.value outer).run (v.tokens ++ rest) = (deliver v outer).run rest
  | .null, outer, rest | .bool _, outer, rest | .int _, outer, rest | .real, outer, rest
  | .str _, outer, rest | .arr [], outer, rest | .obj [], outer, rest => rfl
  | .arr (v :: vs), outer, rest => by
    rw [tokens, List.cons_append, run_cons (e := .item outer) rfl, List.append_assoc, run_item,
      run_tokens v]
    exact run_itemTokens vs [v] outer rest
  | .obj ((k, v) :: ms), outer, rest => by
    rw [tokens, List.cons_append, run_cons (e := .member outer) rfl, List.cons_append,
      run_cons (e := .colon [] k outer) rfl, List.cons_append,
      run_cons (e := .value (.obj [] k :: outer)) rfl, List.append_assoc, run_tokens v]
    exact run_memberTokens ms [(k, v)] outer rest none

theorem run_itemTokens : ∀ (vs before : List Json) (outer : List Enclosure) (rest : List Token),
    (Expect.more (.arr before) outer).run (itemTokens vs ++ rest) =
      (deliver (.arr (before.reverse ++ vs)) outer).run rest
  | [], before, outer, rest => by
    rw [List.append_nil]
    rfl
  | v :: vs, before, outer, rest => by
    rw [itemTokens, List.cons_append, run_cons (e := .value (.arr before :: outer)) rfl,
      List.append_assoc, run_tokens v, deliver, run_itemTokens vs, List.reverse_cons,
      List.append_assoc, List.singleton_append]

theorem run_memberTokens : ∀ (ms before : List (Option String × Json)) (outer : List Enclosure)
    (rest : List Token) (k : Option String),
    (Expect.more (.obj before k) outer).run (memberTokens ms ++ rest) =
      (deliver (.obj (before.reverse ++ ms)) outer).run rest
  | [], before, outer, rest, _ => by
    rw [List.append_nil]
    rfl
  | (k, v) :: ms, before, outer, rest, _ => by
    rw [memberTokens, List.cons_append, run_cons (e := .key before outer) rfl, List.cons_append,
      run_cons (e := .colon before k outer) rfl, List.cons_append,
      run_cons (e := .value (.obj before k :: outer)) rfl, List.append_assoc, run_tokens v, deliver,
      run_memberTokens ms, List.reverse_cons, List.append_assoc, List.singleton_append]

end

theorem ofTokens?_tokens (v : Json) : ofTokens? v.tokens = some v := by
  have hrun := run_tokens v [] []
  rw [List.append_nil] at hrun
  rw [ofTokens?, hrun]
  rfl

/-- Whatever spells a value is read as that value. -/
theorem parse?_padded {v : Json} {xs : List Symbol} (h : Padded (Spells v) xs) :
    parse? xs = some v := by
  rw [parse?, lex_padded h]
  exact ofTokens?_tokens v

end TileRace.Json
