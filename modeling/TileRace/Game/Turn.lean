import TileRace.Game.Basic
import TileRace.Game.Refusal
import TileRace.Scores

namespace TileRace

/-- What comes of handling one message: the game after it, what it sends, whether it goes on, and
the points it awards. -/
structure Turn where
  game : Game
  out : List Message
  keep : Bool := true
  award : Option Award := none

/-- A request that is not carried out: why, and the game as it is by then. -/
structure Rejection where
  refusal : Refusal
  game : Game

namespace Game

/-- A check that stops a request at `g` when it fails. -/
def require (g : Game) (c : Prop) [Decidable c] (r : Refusal) : Except Rejection Unit :=
  if c then .ok () else .error ⟨r, g⟩

def sender (g : Game) (m : Message) : Except Rejection String :=
  match m.player with
  | some name => .ok name
  | none => .error ⟨.noSender, g⟩

def seated (g : Game) (m : Message) : Except Rejection (String × Seat) := do
  let name ← g.sender m
  match g.seats.get? name with
  | some seat => return (name, seat)
  | none => throw ⟨.notSeated, g⟩

def requireStatus (g : Game) (allowed : List Status) : Except Rejection Unit :=
  g.require (g.status ∈ allowed) (.wrongStatus g.status)

def setBoard (g : Game) (name : String) (b : Board) : Game :=
  { g with seats := g.seats.modify name fun s => { s with board := b } }

def others (g : Game) (name : String) : List String := g.players.filter (· ≠ name)

def joined (g : Game) (name : String) (board : Board) (socket : Option SocketId) : Turn :=
  let g := { g with seats := g.seats.insert name ⟨board, g.settings.prize⟩ }
  { game := g
    out := g.boardMessage .joinGame name board socket ::
      (g.others name).map (fun p => (g.toPlayer .socketInfo p none).withInfo
        s!"{name} joined the game") ++ [g.infoChanged] }

/-- A new player takes a hand from the front of the pool. -/
def newcomer (g : Game) (name : String) (m : Message) : Except Rejection Turn := do
  g.require (g.status = .notStarted) .alreadyStarted
  g.require (g.seats.size < g.settings.maxPlayers.toNat) (.full g.settings.maxPlayers)
  let n := g.settings.handSize.toNat
  g.require (n ≤ g.pool.length) .fewTiles
  let tiles := g.pool.take n
  let g := { g with pool := g.pool.drop n }
  let grid := (m.grid.filter Grid.isValid).getD g.grid
  let board ← (Board.ofTiles grid tiles).mapError fun e => ⟨.board e, g⟩
  return g.joined name board m.socket

def join (g : Game) (m : Message) : Except Rejection Turn := do
  let name ← g.sender m
  match g.seats.get? name with
  | some seat => return { game := g, out := [g.boardMessage .joinGame name seat.board m.socket] }
  | none => g.newcomer name m

def delete (g : Game) (m : Message) : Except Rejection Turn := do
  let (name, _) ← g.seated m
  return { game := g, out := g.leaveAll s!"{name} deleted the game", keep := false }

def start (g : Game) (name : String) : Turn :=
  let g := { g with status := .inProgress }
  { game := g
    out := g.toAll .changeGameStatus (fun _ m =>
      { m with game := some g.summary, info := some s!"{name} started the game" }) ++
      [g.infoChanged] }

def award (g : Game) (winner : String) : Award :=
  g.seats.map fun name seat => if name = winner then seat.prize else 1

def finalBoards (g : Game) : Table String (List Placement) :=
  g.seats.map fun _ seat => seat.board.placed

def lowered (prize : UInt32) : UInt32 := if prize ≤ 1 then 1 else prize - 1

/-- A failed check costs its player a point if the rules say so. -/
def penalized (g : Game) (name : String) : Game :=
  if g.rules.penalize then
    { g with seats := g.seats.modify name fun s => { s with prize := lowered s.prize } }
  else g

def checkBoard (g : Game) (name : String) (b : Board) : Except Rejection Unit :=
  (g.rules.check g.words b).mapError fun f => ⟨.failedCheck f, g.penalized name⟩

/-- Checks the board of a player who snags, if the rules say so. -/
def checkOnSnag (g : Game) (name : String) (b : Board) : Except Rejection Unit :=
  if g.rules.checkOnSnag then g.checkBoard name b else .ok ()

def won (g : Game) (name : String) (seat : Seat) (status : Status) : Turn :=
  let g := { g with status := status }
  { game := g
    out := g.toAll .changeGameStatus (fun _ m =>
      { m with
        game := some g.summary
        info := some s!"{name} won, earning {seat.prize} points"
        finalBoards := some g.finalBoards }) ++ [g.infoChanged]
    award := some (g.award name) }

def finish (g : Game) (name : String) (seat : Seat) (status : Status) :
    Except Rejection Turn := do
  g.require (g.pool = []) (.tilesRemain g.pool.length)
  g.checkBoard name seat.board
  return g.won name seat status

def changeStatus (g : Game) (m : Message) : Except Rejection Turn := do
  let (name, seat) ← g.seated m
  match m.game with
  | none => throw ⟨.noStatus, g⟩
  | some wanted => match g.status, wanted.status with
    | .notStarted, .inProgress => return g.start name
    | .inProgress, .finished => g.finish name seat .finished
    | .inProgress, .finishedAllowMove => g.finish name seat .finishedAllowMove
    | now, wanted => throw ⟨.wrongChange now wanted, g⟩

def give (g : Game) (name : String) (b : Board) : List Tile → Except Rejection Game
  | [] => .ok (g.setBoard name b)
  | t :: ts => match b.add t with
    | .error e => .error ⟨.board e, g.setBoard name b⟩
    | .ok b => g.give name b ts

/-- Players take a tile each from the front of the pool, in turn, while there are any. Gives who
took which tile. -/
def deal (g : Game) : List String → Except Rejection (Game × List (String × Tile))
  | [] => .ok (g, [])
  | name :: rest => match g.pool with
    | [] => .ok (g, [])
    | tile :: pool => do
      let g := { g with pool := pool }
      let g ← match g.seats.get? name with
        | none => .ok g
        | some seat => g.give name seat.board [tile]
      let (g, dealt) ← g.deal rest
      return (g, (name, tile) :: dealt)

def snagged (g : Game) (name : String) (dealt : List (String × Tile)) : Turn :=
  { game := g
    out := g.toAll .snagGameTile fun p m =>
      { m with
        tilesLeft := some g.poolSize
        tiles := (dealt.lookup p).map ([·])
        info := some (if p = name then "you snagged a tile" else s!"{name} snagged a tile") } }

/-- Everybody gets a tile while there are any, the sender first. -/
def snag (g : Game) (m : Message) : Except Rejection Turn := do
  let (name, seat) ← g.seated m
  g.requireStatus [.inProgress]
  g.require (g.pool ≠ []) .nothingToSnag
  g.checkOnSnag name seat.board
  let (others, shuffler) := g.shuffler.shuffle (g.others name)
  let (g, dealt) ← { g with shuffler := shuffler }.deal (name :: others)
  return g.snagged name dealt

def swapDraw : Nat := 3

def swapped (g : Game) (name : String) (tile : Tile) (drawn : List Tile)
    (socket : Option SocketId) : Turn :=
  { game := g
    out :=
      { g.toPlayer .swapGameTile name socket with
        info := some s!"swapped a {tile.letter} for {drawn.length} tiles"
        tiles := some drawn
        tilesLeft := some g.poolSize } ::
      (g.others name).map fun p =>
        { g.toPlayer .swapGameTile p none with
          info := some s!"{name} swapped a tile"
          tilesLeft := some g.poolSize } }

/-- A tile goes back to the pool, which is shuffled, for up to three tiles from its front. -/
def swap (g : Game) (m : Message) : Except Rejection Turn := do
  let (name, seat) ← g.seated m
  g.requireStatus [.inProgress]
  match (m.tiles.getD []).head? with
  | none => throw ⟨.noTile, g⟩
  | some tile =>
    g.require (g.pool ≠ []) .nothingToSwap
    let board ← (seat.board.remove tile).mapError fun e => ⟨.cannotSwap e, g⟩
    let (pool, shuffler) := g.shuffler.shuffle (g.pool ++ [tile])
    let drawn := pool.take swapDraw
    let g ← { g with pool := pool.drop swapDraw, shuffler := shuffler }.give name board drawn
    return g.swapped name tile drawn m.socket

def move (g : Game) (m : Message) : Except Rejection Turn := do
  let (name, seat) ← g.seated m
  g.requireStatus [.inProgress, .finishedAllowMove]
  match m.placements with
  | none => throw ⟨.noPlacements, g⟩
  | some ps =>
    let board ← (seat.board.move ps).mapError fun e => ⟨.invalidMove e, g⟩
    return { game := g.setBoard name board, out := [] }

def chat (g : Game) (m : Message) : Except Rejection Turn := do
  let (name, _) ← g.seated m
  let text := Text.trim (m.info.getD "").toList
  g.require (text ≠ []) .emptyChat
  return {
    game := g
    out := g.toAll .gameChat fun _ m => m.withInfo s!"{name}: {String.ofList text}" }

def resized (g : Game) (name : String) (board : Board) (moved : List Tile)
    (socket : Option SocketId) : Turn :=
  let g := g.setBoard name board
  let reply := g.boardMessage .refreshGameBoard name board socket
  { game := g
    out := [if moved = [] then reply
      else reply.withInfo s!"{moved.length} tiles were moved back to the unused area"] }

def refresh (g : Game) (m : Message) : Except Rejection Turn := do
  let (name, seat) ← g.seated m
  match m.grid with
  | none => return { game := g, out := [g.boardMessage .refreshGameBoard name seat.board m.socket] }
  | some grid =>
    g.require grid.isValid .emptyGrid
    let (board, moved) := seat.board.resize grid
    return g.resized name board moved m.socket

def respond (g : Game) (m : Message) : Except Rejection Turn :=
  match m.kind with
  | .joinGame => g.join m
  | .deleteGame => g.delete m
  | .changeGameStatus => g.changeStatus m
  | .snagGameTile => g.snag m
  | .swapGameTile => g.swap m
  | .moveGameTiles => g.move m
  | .gameChat => g.chat m
  | .refreshGameBoard => g.refresh m
  | k => .error ⟨.unexpected k, g⟩

def refuse (m : Message) (r : Rejection) : Turn :=
  { game := r.game
    out := [{ (m.reply r.refusal.kind).withInfo r.refusal.message with
      gameId := some r.game.id }] }

def handle (g : Game) (m : Message) : Turn :=
  match g.respond m with
  | .ok t => t
  | .error r => refuse m r

end Game

end TileRace
