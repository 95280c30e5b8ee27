import TileRace.Json.Parser
import TileRace.Json.Printer
import TileRace.Json.Record
import TileRace.Message

namespace TileRace

open TileRace.Text (Symbol)

def Json.members (ms : List (String × Json)) : Json := .obj (ms.map fun m => (some m.1, m.2))

def Json.present (ms : List (String × Option Json)) : Json :=
  .members (ms.filterMap fun m => m.2.map fun v => (m.1, v))

def Json.ofString (s : String) : Json := .str (some s)

def Json.ofNat (n : Nat) : Json := .int n

def Tile.toJson (t : Tile) : Json :=
  .members [("id", .ofNat t.id.toNat), ("ch", .ofString (String.ofList [t.letter]))]

def Tile.ofJson? (v : Json) : Option Tile := do
  let field ← v.record? ["id", "ch"]
  let id ← (← field "id").u32?
  let letter ← (← field "ch").char?
  some ⟨id, letter⟩

def Placement.toJson (p : Placement) : Json :=
  .members [("tile", p.tile.toJson), ("x", .int p.x.toInt), ("y", .int p.y.toInt)]

def Placement.ofJson? (v : Json) : Option Placement := do
  let field ← v.record? ["tile", "x", "y"]
  let tile ← Tile.ofJson? (← field "tile")
  let x ← (← field "x").i32?
  let y ← (← field "y").i32?
  some ⟨tile, x, y⟩

def Grid.toJson (g : Grid) : Json :=
  .members [("numRows", .ofNat g.rows.toNat), ("numCols", .ofNat g.columns.toNat)]

def Grid.ofJson? (v : Json) : Option Grid := do
  let field ← v.record? ["numRows", "numCols"]
  let rows ← (← field "numRows").u64?
  let columns ← (← field "numCols").u64?
  some ⟨rows, columns⟩

def Rules.toJson (r : Rules) : Json :=
  .members [("checkOnSnag", .bool r.checkOnSnag), ("penalize", .bool r.penalize),
    ("minLength", .ofNat r.minLength.toNat), ("allowDuplicates", .bool r.allowDuplicates)]

def Rules.ofJson? (v : Json) : Option Rules := do
  let field ← v.record? ["checkOnSnag", "penalize", "minLength", "allowDuplicates"]
  let checkOnSnag ← (← field "checkOnSnag").bool?
  let penalize ← (← field "penalize").bool?
  let minLength ← (← field "minLength").u64?
  let allowDuplicates ← (← field "allowDuplicates").bool?
  some ⟨checkOnSnag, penalize, minLength, allowDuplicates⟩

def Status.toJson (s : Status) : Json := .ofNat s.code.toNat

def Status.ofJson? (v : Json) : Option Status := do (Status.ofCode (← v.u8?)).toOption

def Kind.toJson (k : Kind) : Json := .ofNat k.code.toNat

def Kind.ofJson? (v : Json) : Option Kind := do (Kind.ofCode (← v.u8?)).toOption

def Summary.toJson (g : Summary) : Json :=
  .members [("id", .ofNat g.id.toNat), ("status", g.status.toJson),
    ("players", .arr (g.players.map .ofString)), ("capacity", .ofNat g.capacity.toNat),
    ("createdAt", .ofNat g.createdAt.toNat)]

def Summary.ofJson? (v : Json) : Option Summary := do
  let field ← v.record? ["id", "status", "players", "capacity", "createdAt"]
  let id ← (← field "id").u32?
  let status ← Status.ofJson? (← field "status")
  let players ← (← field "players").list? Json.string?
  let capacity ← (← field "capacity").u64?
  let createdAt ← (← field "createdAt").u64?
  some ⟨id, status, players, capacity, createdAt⟩

def placementsToJson (ps : List Placement) : Json := .arr (ps.map Placement.toJson)

def finalBoardsToJson (t : Table String (List Placement)) : Json :=
  .members (t.entries.map fun e => (e.1, placementsToJson e.2))

/-- Of several boards under one name the last one counts. -/
def finalBoardsOfJson? : Json → Option (Table String (List Placement))
  | .obj members => do
    let boards ← members.mapM fun (k, v) => do
      let name ← k
      let placements ← v.list? Placement.ofJson?
      return (name, placements)
    return Table.ofList boards
  | _ => none

namespace Message

def fieldNames : List String :=
  ["type", "info", "game", "games", "tiles", "tilePositions", "tilesLeft", "gameId", "playerName",
   "boardConfig", "gameRules", "rules", "finalBoards"]

def toJson (m : Message) : Json :=
  .present
    [("type", some m.kind.toJson),
     ("info", m.info.map .ofString),
     ("game", m.game.map Summary.toJson),
     ("games", m.games.map fun gs => .arr (gs.map Summary.toJson)),
     ("tiles", m.tiles.map fun ts => .arr (ts.map Tile.toJson)),
     ("tilePositions", m.placements.map placementsToJson),
     ("tilesLeft", m.tilesLeft.map fun n => .ofNat n.toNat),
     ("gameId", m.gameId.map fun n => .ofNat n.toNat),
     ("playerName", m.player.map .ofString),
     ("boardConfig", m.grid.map Grid.toJson),
     ("gameRules", m.rules.map Rules.toJson),
     ("rules", m.ruleLines.map fun ls => .arr (ls.map .ofString)),
     ("finalBoards", m.finalBoards.map finalBoardsToJson)]

def ofJson? (v : Json) : Option Message := do
  let field ← v.record? fieldNames
  let kind ← Kind.ofJson? (← field "type")
  let info ← Json.optional? Json.string? (field "info")
  let game ← Json.optional? Summary.ofJson? (field "game")
  let games ← Json.optional? (Json.list? Summary.ofJson?) (field "games")
  let tiles ← Json.optional? (Json.list? Tile.ofJson?) (field "tiles")
  let placements ← Json.optional? (Json.list? Placement.ofJson?) (field "tilePositions")
  let tilesLeft ← Json.optional? Json.u64? (field "tilesLeft")
  let gameId ← Json.optional? Json.u32? (field "gameId")
  let player ← Json.optional? Json.string? (field "playerName")
  let grid ← Json.optional? Grid.ofJson? (field "boardConfig")
  let rules ← Json.optional? Rules.ofJson? (field "gameRules")
  let ruleLines ← Json.optional? (Json.list? Json.string?) (field "rules")
  let finalBoards ← Json.optional? finalBoardsOfJson? (field "finalBoards")
  some { kind, info, game, games, tiles, placements, tilesLeft, gameId, player, grid, rules,
         ruleLines, finalBoards }

def encode (m : Message) : List Char := m.toJson.render

def decode? (xs : List Symbol) : Option Message := (Json.parse? xs).bind ofJson?

end Message

end TileRace
