import TileRace.Board.Basic
import TileRace.Game.Check
import TileRace.Message

namespace TileRace

inductive Refusal where
  | noSender
  | notSeated
  | alreadyStarted
  | full (maxPlayers : UInt64)
  | fewTiles
  | noStatus
  | wrongChange (now wanted : Status)
  | tilesRemain (n : Nat)
  | failedCheck (fault : Fault)
  | wrongStatus (now : Status)
  | nothingToSnag
  | noTile
  | nothingToSwap
  | cannotSwap (e : BoardError)
  | noPlacements
  | invalidMove (e : BoardError)
  | emptyChat
  | emptyGrid
  | unexpected (k : Kind)
  | board (e : BoardError)
  deriving DecidableEq, Repr

namespace Refusal

/-- The kind of message that tells the requester: a warning about a misstep, an error about a
request that makes no sense, or a notice that the game is closed to the requester. -/
def kind : Refusal → Kind
  | .alreadyStarted | .full _ | .fewTiles => .leaveGame
  | .noSender | .noStatus | .noTile | .noPlacements | .unexpected _ | .board _ => .socketError
  | _ => .socketWarning

def message : Refusal → String
  | .noSender => "message has no player name"
  | .notSeated => "you are not in this game"
  | .alreadyStarted => "the game has already started"
  | .full n => s!"the game is full ({n} players)"
  | .fewTiles => "not enough tiles left to join"
  | .noStatus => "missing game status"
  | .wrongChange now wanted => s!"cannot change the game from {now.text} to {wanted.text}"
  | .tilesRemain n => s!"snag the remaining {n} tiles before finishing"
  | .failedCheck f => f.message
  | .wrongStatus now => s!"the game is {now.text}"
  | .nothingToSnag => "no tiles left to snag, try finishing the game"
  | .noTile => "missing tile to swap"
  | .nothingToSwap => "no tiles left to swap"
  | .cannotSwap e => s!"cannot swap: {e.message}"
  | .noPlacements => "missing tile positions"
  | .invalidMove e => s!"invalid move: {e.message}"
  | .emptyChat => "chat message is empty"
  | .emptyGrid => "board must have at least one row and column"
  | .unexpected k => s!"unexpected message type {k.name}"
  | .board e => e.message

end Refusal

end TileRace
