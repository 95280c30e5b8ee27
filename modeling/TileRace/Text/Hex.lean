namespace TileRace.Text

def hexDigit? (c : Char) : Option Nat :=
  if c.isDigit then some (c.toNat - '0'.toNat)
  else if 'a' ≤ c ∧ c ≤ 'f' then some (c.toNat - 'a'.toNat + 10)
  else if 'A' ≤ c ∧ c ≤ 'F' then some (c.toNat - 'A'.toNat + 10)
  else none

def hexByte? (c d : Char) : Option UInt8 :=
  match hexDigit? c, hexDigit? d with
  | some a, some b => some (UInt8.ofNat (a * 16 + b))
  | _, _ => none

end TileRace.Text
