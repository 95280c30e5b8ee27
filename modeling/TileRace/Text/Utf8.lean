namespace TileRace.Text

/-- What a byte sequence spells: `none` stands for a byte that begins no character. -/
abbrev Symbol := Option Char

def symbolsFrom (b : ByteArray) (i : Nat) : List Symbol :=
  if _h : i < b.size then
    match b.utf8DecodeChar? i with
    | some c => some c :: symbolsFrom b (i + c.utf8Size)
    | none => none :: symbolsFrom b (i + 1)
  else []
termination_by b.size - i
decreasing_by
  · have := c.utf8Size_pos; omega
  · omega

def symbols (b : ByteArray) : List Symbol := symbolsFrom b 0

def symbolsOf (s : String) : List Symbol := s.toList.map some

end TileRace.Text
