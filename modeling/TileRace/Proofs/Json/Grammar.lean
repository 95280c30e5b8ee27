import TileRace.Json.Lexer
import TileRace.Json.Printer

namespace TileRace.Json

open TileRace.Text

def plain (cs : List Char) : List Symbol := cs.map some

def spaces : List Char := [' ', '\t', '\n', '\r']

def Blank (xs : List Symbol) : Prop := ∃ cs, (∀ c ∈ cs, c ∈ spaces) ∧ xs = plain cs

def Padded (spells : List Symbol → Prop) (xs : List Symbol) : Prop :=
  ∃ before ys after, Blank before ∧ spells ys ∧ Blank after ∧ xs = before ++ (ys ++ after)

inductive Joined {α : Type} (spells : α → List Symbol → Prop) : List α → List Symbol → Prop where
  | nil : Joined spells [] []
  | cons {a l xs ys} (head : spells a xs) (tail : Joined spells l ys) :
    Joined spells (a :: l) (xs ++ ys)

def shortEscapes : List (Char × Char) :=
  [('"', '"'), ('\\', '\\'), ('/', '/'), ('b', '\x08'), ('f', '\x0c'), ('n', '\n'), ('r', '\r'),
   ('t', '\t')]

inductive SpellsLetter : Char → List Symbol → Prop where
  | plain {c} (low : 0x20 ≤ c.toNat) (quote : c ≠ '"') (slash : c ≠ '\\') :
    SpellsLetter c [some c]
  | short {e c} (h : (e, c) ∈ shortEscapes) : SpellsLetter c (plain ['\\', e])

def IsHexDigit (d : Nat) (c : Char) : Prop :=
  d < 16 ∧ (c = Nat.digitChar d ∨ c = (Nat.digitChar d).toUpper)

inductive SpellsUnit : Nat → List Symbol → Prop where
  | digits {p q r s a b c d} (first : IsHexDigit p a) (second : IsHexDigit q b)
    (third : IsHexDigit r c) (fourth : IsHexDigit s d) :
    SpellsUnit (((p * 16 + q) * 16 + r) * 16 + s) (plain ['\\', 'u', a, b, c, d])

inductive SpellsChar : Char → List Symbol → Prop where
  | letter {c xs} (h : SpellsLetter c xs) : SpellsChar c xs
  | unit {c xs} (h : SpellsUnit c.toNat xs) : SpellsChar c xs
  | pair {c xs ys} (beyond : 0x10000 ≤ c.toNat)
    (high : SpellsUnit (0xD800 + (c.toNat - 0x10000) / 0x400) xs)
    (low : SpellsUnit (0xDC00 + (c.toNat - 0x10000) % 0x400) ys) : SpellsChar c (xs ++ ys)

def SpellsText (s : String) : List Symbol → Prop := Joined SpellsChar s.toList

/-- A part of a string that is well formed by itself, whether or not it stands for a text. -/
inductive SpellsPiece : Piece → List Symbol → Prop where
  | char {c xs} (h : SpellsLetter c xs) : SpellsPiece (.char c) xs
  | unit {u xs} (h : SpellsUnit u xs) : SpellsPiece (.unit u) xs
  | stray : SpellsPiece .stray [none]

/-- The inside of a string that stands for no text: it has a lone surrogate, or a stray byte. -/
def Garbled (xs : List Symbol) : Prop :=
  (∃ ps, Joined SpellsPiece ps xs) ∧ ∀ s, ¬ SpellsText s xs

def quote (xs : List Symbol) : List Symbol := some '"' :: (xs ++ [some '"'])

def SpellsString : Option String → List Symbol → Prop
  | some s, xs => ∃ ys, SpellsText s ys ∧ xs = quote ys
  | none, xs => ∃ ys, Garbled ys ∧ xs = quote ys

def Digits (cs : List Char) : Prop := cs ≠ [] ∧ ∀ c ∈ cs, c.isDigit

structure NumberParts where
  sign : List Char
  whole : List Char
  fraction : List Char
  power : List Char
  signed : sign = [] ∨ sign = ['-']
  whole_digits : whole = ['0'] ∨ Digits whole ∧ whole.head? ≠ some '0'
  fraction_digits : fraction = [] ∨ ∃ ds, Digits ds ∧ fraction = '.' :: ds
  power_digits : power = [] ∨ ∃ e s ds, (e = 'e' ∨ e = 'E') ∧ (s = [] ∨ s = ['+'] ∨ s = ['-']) ∧
    Digits ds ∧ power = e :: (s ++ ds)

def NumberParts.text (n : NumberParts) : List Char :=
  n.sign ++ (n.whole ++ (n.fraction ++ n.power))

def SpellsReal (xs : List Symbol) : Prop := ∃ n : NumberParts, xs = plain n.text ∧
  (n.fraction ≠ [] ∨ n.power ≠ [] ∨ n.sign ≠ [] ∧ n.whole = ['0'])

mutual

def Spells : Json → List Symbol → Prop
  | .null, xs => xs = plain ['n', 'u', 'l', 'l']
  | .bool true, xs => xs = plain ['t', 'r', 'u', 'e']
  | .bool false, xs => xs = plain ['f', 'a', 'l', 's', 'e']
  | .int n, xs => xs = plain (renderInt n)
  | .real, xs => SpellsReal xs
  | .str s, xs => SpellsString s xs
  | .arr [], xs => ∃ ys, Blank ys ∧ xs = some '[' :: (ys ++ [some ']'])
  | .arr (v :: vs), xs => ∃ ys zs, Padded (fun ys => Spells v ys) ys ∧ SpellsItems vs zs ∧
      xs = some '[' :: (ys ++ zs)
  | .obj [], xs => ∃ ys, Blank ys ∧ xs = some '\x7b' :: (ys ++ [some '\x7d'])
  | .obj ((k, v) :: ms), xs => ∃ ks ys zs, Padded (SpellsString k) ks ∧
      Padded (fun ys => Spells v ys) ys ∧ SpellsMembers ms zs ∧
      xs = some '\x7b' :: (ks ++ some ':' :: (ys ++ zs))

def SpellsItems : List Json → List Symbol → Prop
  | [], xs => xs = [some ']']
  | v :: vs, xs => ∃ ys zs, Padded (fun ys => Spells v ys) ys ∧ SpellsItems vs zs ∧
      xs = some ',' :: (ys ++ zs)

def SpellsMembers : List (Option String × Json) → List Symbol → Prop
  | [], xs => xs = [some '\x7d']
  | (k, v) :: ms, xs => ∃ ks ys zs, Padded (SpellsString k) ks ∧
      Padded (fun ys => Spells v ys) ys ∧ SpellsMembers ms zs ∧
      xs = some ',' :: (ks ++ some ':' :: (ys ++ zs))

end

end TileRace.Json
