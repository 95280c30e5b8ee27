namespace TileRace.Text

def natural? (cs : List Char) : Option Nat :=
  if cs ≠ [] ∧ cs.all Char.isDigit then some (Nat.ofDigitChars 10 cs 0) else none

/-- Digits with an optional plus sign, for a number below `limit`. -/
def unsigned? (limit : Nat) (cs : List Char) : Option Nat :=
  let digits := match cs with
    | '+' :: r => r
    | r => r
  (natural? digits).filter (· < limit)

/-- Digits with an optional sign, for a number from `-limit` to `limit - 1`. -/
def signed? (limit : Nat) (cs : List Char) : Option Int :=
  let value : Option Int := match cs with
    | '-' :: r => (natural? r).map fun n => -(n : Int)
    | '+' :: r => (natural? r).map fun n => (n : Int)
    | r => (natural? r).map fun n => (n : Int)
  value.filter fun z => -(limit : Int) ≤ z ∧ z < limit

def u32? (cs : List Char) : Option UInt32 := (unsigned? UInt32.size cs).map UInt32.ofNat

def u64? (cs : List Char) : Option UInt64 := (unsigned? UInt64.size cs).map UInt64.ofNat

def i32? (cs : List Char) : Option Int32 := (signed? (Int32.size / 2) cs).map Int32.ofInt

end TileRace.Text
