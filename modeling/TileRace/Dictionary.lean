import TileRace.Text.Blank

namespace TileRace

/-- The words that may be laid: in upper case, sorted, each once. -/
structure Dictionary where
  words : List String
  deriving Inhabited

namespace Dictionary

inductive ReadError where
  | invalidData
  | notFound
  | notDirectory
  | isDirectory
  | nameTooLong
  | failed (reason : String)
  deriving DecidableEq, Repr

def ReadError.message : ReadError → String
  | .invalidData => "stream did not contain valid UTF-8"
  | .notFound => "No such file or directory (os error 2)"
  | .notDirectory => "Not a directory (os error 20)"
  | .isDirectory => "Is a directory (os error 21)"
  | .nameTooLong => "File name too long (os error 36)"
  | .failed reason => reason

def upper (cs : List Char) : String := String.ofList (cs.map Char.toUpper)

/-- A line is a word when it holds ASCII letters and nothing else, blanks around them apart. -/
def wordOf? (line : List Char) : Option String :=
  let word := Text.trim line
  if word ≠ [] ∧ word.all Char.isAlpha then some (upper word) else none

def unrepeated : List String → List String
  | a :: b :: l => if a = b then unrepeated (b :: l) else a :: unrepeated (b :: l)
  | l => l

def ofLines (lines : List (List Char)) : Dictionary :=
  ⟨unrepeated ((lines.filterMap wordOf?).mergeSort (· ≤ ·))⟩

def linesOf (text : List Char) : List (List Char) := text.splitOn '\n'

def ofText (text : String) : Dictionary := ofLines (linesOf text.toList)

def ofBytes (bytes : ByteArray) : Except ReadError Dictionary :=
  match String.fromUTF8? bytes with
  | some text => .ok (ofText text)
  | none => .error .invalidData

/-- Words are compared without regard to the case of ASCII letters. -/
def accepts (d : Dictionary) (word : String) : Bool := d.words.contains (upper word.toList)

def size (d : Dictionary) : Nat := d.words.length

def isEmpty (d : Dictionary) : Bool := d.words.isEmpty

end Dictionary

end TileRace
