import TileRace.Json.Lexer

namespace TileRace.Json

open TileRace.Text

inductive Enclosure where
  | arr (before : List Json)
  | obj (before : List (Option String × Json)) (key : Option String)

inductive Expect where
  | value (outer : List Enclosure)
  | item (outer : List Enclosure)
  | member (outer : List Enclosure)
  | key (before : List (Option String × Json)) (outer : List Enclosure)
  | colon (before : List (Option String × Json)) (key : Option String) (outer : List Enclosure)
  | more (inner : Enclosure) (outer : List Enclosure)
  | nothing (result : Json)

def deliver (v : Json) : List Enclosure → Expect
  | [] => .nothing v
  | .arr before :: outer => .more (.arr (v :: before)) outer
  | .obj before key :: outer => .more (.obj ((key, v) :: before) none) outer

def Token.value? : Token → Option Json
  | .null => some .null
  | .bool b => some (.bool b)
  | .int n => some (.int n)
  | .real => some .real
  | .str s => some (.str s)
  | _ => none

def begin (t : Token) (outer : List Enclosure) : Option Expect :=
  match t with
  | .openBracket => some (.item outer)
  | .openBrace => some (.member outer)
  | t => t.value?.map (deliver · outer)

def Expect.read (e : Expect) (t : Token) : Option Expect :=
  match e, t with
  | .value outer, t => begin t outer
  | .item outer, .closeBracket => some (deliver (.arr []) outer)
  | .item outer, t => begin t (.arr [] :: outer)
  | .member outer, .closeBrace => some (deliver (.obj []) outer)
  | .member outer, .str s => some (.colon [] s outer)
  | .key before outer, .str s => some (.colon before s outer)
  | .colon before k outer, .colon => some (.value (.obj before k :: outer))
  | .more (.arr before) outer, .comma => some (.value (.arr before :: outer))
  | .more (.arr before) outer, .closeBracket => some (deliver (.arr before.reverse) outer)
  | .more (.obj before _) outer, .comma => some (.key before outer)
  | .more (.obj before _) outer, .closeBrace => some (deliver (.obj before.reverse) outer)
  | _, _ => none

def Expect.run (e : Expect) : List Token → Option Expect
  | [] => some e
  | t :: r => match e.read t with
    | some e => e.run r
    | none => none

def ofTokens? (ts : List Token) : Option Json :=
  match (Expect.value []).run ts with
  | some (.nothing v) => some v
  | _ => none

def parse? (xs : List Symbol) : Option Json := (lex xs).bind ofTokens?

end TileRace.Json
