import TileRace.Json.Basic
import TileRace.Text.Hex
import TileRace.Text.Utf8

namespace TileRace.Json

open TileRace.Text

/-- A part of a string as written: a character, a UTF-16 unit given by an escape, or a stray
byte. -/
inductive Piece where
  | char (c : Char)
  | unit (u : Nat)
  | stray
  deriving Repr, DecidableEq

/-- The text that pieces stand for. Two units make one character when they are a surrogate pair. -/
def assemble : List Piece → Option (List Char)
  | [] => some []
  | .char c :: r => (assemble r).map (c :: ·)
  | .stray :: _ => none
  | .unit u :: .unit v :: r =>
    if 0xD800 ≤ u ∧ u < 0xDC00 then
      if 0xDC00 ≤ v ∧ v < 0xE000 then
        (assemble r).map (Char.ofNat (0x10000 + (u - 0xD800) * 0x400 + (v - 0xDC00)) :: ·)
      else none
    else if 0xDC00 ≤ u ∧ u < 0xE000 then none
    else (assemble (.unit v :: r)).map (Char.ofNat u :: ·)
  | .unit u :: r =>
    if 0xD800 ≤ u ∧ u < 0xE000 then none else (assemble r).map (Char.ofNat u :: ·)

inductive Place where
  | sign | zero | whole | point | fraction | exponent | exponentSign | power
  deriving Repr, DecidableEq

structure Numeral where
  negative : Bool
  magnitude : Nat
  place : Place
  deriving Repr, DecidableEq

namespace Numeral

def addDigit (n : Numeral) (c : Char) : Numeral :=
  { n with magnitude := n.magnitude * 10 + (c.toNat - '0'.toNat), place := .whole }

/-- Reads one more character, unless the number ends before it. -/
def feed (n : Numeral) (c : Char) : Option Numeral :=
  match n.place with
  | .sign => if c = '0' then some { n with place := .zero }
    else if c.isDigit then some (n.addDigit c) else none
  | .zero => if c = '.' then some { n with place := .point }
    else if c = 'e' ∨ c = 'E' then some { n with place := .exponent } else none
  | .whole => if c.isDigit then some (n.addDigit c)
    else if c = '.' then some { n with place := .point }
    else if c = 'e' ∨ c = 'E' then some { n with place := .exponent } else none
  | .point => if c.isDigit then some { n with place := .fraction } else none
  | .fraction => if c.isDigit then some n
    else if c = 'e' ∨ c = 'E' then some { n with place := .exponent } else none
  | .exponent => if c = '+' ∨ c = '-' then some { n with place := .exponentSign }
    else if c.isDigit then some { n with place := .power } else none
  | .exponentSign => if c.isDigit then some { n with place := .power } else none
  | .power => if c.isDigit then some n else none

/-- A minus sign before zero leaves the integers. -/
def finish (n : Numeral) : Option Token :=
  match n.place with
  | .zero => some (if n.negative then .real else .int 0)
  | .whole => some (.int (if n.negative then -(n.magnitude : Int) else n.magnitude))
  | .fraction | .power => some .real
  | _ => none

end Numeral

/-- Where the reader stands. Pieces are kept last first. -/
inductive Mode where
  | between
  | string (s : List Piece)
  | escape (s : List Piece)
  | hex (s : List Piece) (left : Nat) (u : Nat)
  | word (rest : List Char) (t : Token)
  | number (n : Numeral)
  deriving Repr, DecidableEq

def escaped? (c : Char) : Option Char :=
  match c with
  | '"' => some '"'
  | '\\' => some '\\'
  | '/' => some '/'
  | 'b' => some '\x08'
  | 'f' => some '\x0c'
  | 'n' => some '\n'
  | 'r' => some '\r'
  | 't' => some '\t'
  | _ => none

def start (c : Char) : Option (Mode × List Token) :=
  match c with
  | ' ' | '\t' | '\n' | '\r' => some (.between, [])
  | '\x7b' => some (.between, [.openBrace])
  | '\x7d' => some (.between, [.closeBrace])
  | '[' => some (.between, [.openBracket])
  | ']' => some (.between, [.closeBracket])
  | ':' => some (.between, [.colon])
  | ',' => some (.between, [.comma])
  | '"' => some (.string [], [])
  | 'n' => some (.word ['u', 'l', 'l'] .null, [])
  | 't' => some (.word ['r', 'u', 'e'] (.bool true), [])
  | 'f' => some (.word ['a', 'l', 's', 'e'] (.bool false), [])
  | '-' => some (.number ⟨true, 0, .sign⟩, [])
  | c => ((⟨false, 0, .sign⟩ : Numeral).feed c).map fun n => (.number n, [])

def Mode.read (m : Mode) (x : Symbol) : Option (Mode × List Token) :=
  match m, x with
  | .between, some c => start c
  | .string s, some '"' => some (.between, [.str ((assemble s.reverse).map String.ofList)])
  | .string s, some '\\' => some (.escape s, [])
  | .string s, some c => if c.toNat < 0x20 then none else some (.string (.char c :: s), [])
  | .string s, none => some (.string (.stray :: s), [])
  | .escape s, some 'u' => some (.hex s 4 0, [])
  | .escape s, some c => (escaped? c).map fun c => (.string (.char c :: s), [])
  | .hex s left u, some c => (hexDigit? c).map fun d =>
    if left ≤ 1 then (.string (.unit (u * 16 + d) :: s), [])
    else (.hex s (left - 1) (u * 16 + d), [])
  | .word [d] t, some c => if c = d then some (.between, [t]) else none
  | .word (d :: rest) t, some c => if c = d then some (.word rest t, []) else none
  | .number n, some c => match n.feed c with
    | some n => some (.number n, [])
    | none => do
      let t ← n.finish
      let (m, ts) ← start c
      some (m, t :: ts)
  | _, _ => none

def Mode.finish : Mode → Option (List Token)
  | .between => some []
  | .number n => n.finish.map ([·])
  | _ => none

/-- Tokens read before are kept last first. -/
def lexFrom (m : Mode) (before : List Token) : List Symbol → Option (List Token)
  | [] => m.finish.map fun ts => (ts.reverse ++ before).reverse
  | x :: r => match m.read x with
    | some (m, ts) => lexFrom m (ts.reverse ++ before) r
    | none => none

def lex (xs : List Symbol) : Option (List Token) := lexFrom .between [] xs

end TileRace.Json
