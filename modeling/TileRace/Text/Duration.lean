namespace TileRace.Text

def fraction (width n : Nat) : List Char :=
  let digits := Nat.toDigits 10 n
  let padded := List.replicate (width - digits.length) '0' ++ digits
  (padded.reverse.dropWhile (· = '0')).reverse

def units : List (Nat × String) := [(9, "s"), (6, "ms"), (3, "µs"), (0, "ns")]

def duration (ns : Nat) : String :=
  let (width, unit) := (units.find? fun u => Nat.pow 10 u.1 ≤ ns).getD (0, "ns")
  let whole := toString (ns / Nat.pow 10 width)
  match fraction width (ns % Nat.pow 10 width) with
  | [] => whole ++ unit
  | digits => whole ++ "." ++ String.ofList digits ++ unit

end TileRace.Text
