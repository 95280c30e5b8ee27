namespace TileRace

/-- A value of the data format. A string, also one that names a member, is `none` when its
spelling stands for no text: a lone surrogate, or bytes that are not UTF-8. A number that is not
written as an integer has no value here. -/
inductive Json where
  | null
  | bool (b : Bool)
  | int (n : Int)
  | real
  | str (s : Option String)
  | arr (items : List Json)
  | obj (members : List (Option String × Json))
  deriving Repr, Inhabited

namespace Json

inductive Token where
  | openBrace | closeBrace | openBracket | closeBracket | colon | comma
  | null
  | bool (b : Bool)
  | int (n : Int)
  | real
  | str (s : Option String)
  deriving Repr, DecidableEq

end Json

end TileRace
