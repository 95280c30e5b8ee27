import TileRace.Text.Hex

namespace TileRace.Query

/-- The bytes of a value: a plus sign is a space, an escape is its byte, and anything else stands
for itself, also a percent sign that begins no escape. -/
def bytes : List Char → List UInt8
  | '%' :: c :: d :: r => match Text.hexByte? c d with
    | some b => b :: bytes r
    | none => String.utf8EncodeChar '%' ++ bytes (c :: d :: r)
  | '+' :: r => String.utf8EncodeChar ' ' ++ bytes r
  | c :: r => String.utf8EncodeChar c ++ bytes r
  | [] => []

def decode? (value : List Char) : Option String := String.fromUTF8? (bytes value).toByteArray

def pair? (parameter : List Char) : Option (List Char × List Char) :=
  match parameter.dropWhile (· ≠ '=') with
  | [] => none
  | _ :: value => some (parameter.takeWhile (· ≠ '='), value)

/-- The value of the first parameter with a name, decoded, unless it is empty or spells no text. -/
def parameter? (query key : String) : Option String := do
  let pairs := (query.toList.splitOn '&').filterMap pair?
  let value ← pairs.lookup key.toList
  (decode? value).filter (· ≠ "")

end TileRace.Query
