import TileRace.Json.Basic

namespace TileRace.Json

/-- The members of an object that are among `names`, by name; or the items of an array, which are
given these names in order. Each name may occur once, and every name must be a text. -/
def record? (names : List String) : Json → Option (String → Option Json)
  | .arr items =>
    if items.length ≤ names.length then some fun n => (names.zip items).lookup n else none
  | .obj members =>
    let keys := members.map (·.1)
    if keys.all Option.isSome ∧ names.all (fun n => keys.count (some n) ≤ 1) then
      some fun n => members.lookup (some n)
    else none
  | _ => none

def optional? {α : Type} (read : Json → Option α) : Option Json → Option (Option α)
  | none => some none
  | some .null => some none
  | some v => (read v).map some

def list? {α : Type} (read : Json → Option α) : Json → Option (List α)
  | .arr items => items.mapM read
  | _ => none

def string? : Json → Option String
  | .str s => s
  | _ => none

def char? : Json → Option Char
  | .str (some s) => match s.toList with
    | [c] => some c
    | _ => none
  | _ => none

def bool? : Json → Option Bool
  | .bool b => some b
  | _ => none

def integer? (low high : Int) : Json → Option Int
  | .int n => if low ≤ n ∧ n ≤ high then some n else none
  | _ => none

def u8? (v : Json) : Option UInt8 := (v.integer? 0 (UInt8.size - 1)).map fun n => .ofNat n.toNat

def u32? (v : Json) : Option UInt32 := (v.integer? 0 (UInt32.size - 1)).map fun n => .ofNat n.toNat

def u64? (v : Json) : Option UInt64 := (v.integer? 0 (UInt64.size - 1)).map fun n => .ofNat n.toNat

def i32? (v : Json) : Option Int32 :=
  (v.integer? Int32.minValue.toInt Int32.maxValue.toInt).map Int32.ofInt

end TileRace.Json
