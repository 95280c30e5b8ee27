import TileRace.Message
import TileRace.Text.Quoted

namespace TileRace.Client

def tileText (t : Tile) : String := s!"{t.id}:{t.letter}"

def namesText (names : List String) : String :=
  "[" ++ String.intercalate ", " (names.map Text.quoted) ++ "]"

def summaryLine (g : Summary) : String :=
  s!"   game {g.id} ({g.status.text}) players {namesText g.players} of {g.capacity}"

def placementLine (p : Placement) : String := s!"   {tileText p.tile} at ({p.x}, {p.y})"

def lines (m : Message) : List String :=
  [s!"<- {m.kind.name}"] ++
  (m.info.map fun info => s!"   {info}").toList ++
  (m.games.getD []).map summaryLine ++
  (m.tiles.map fun ts => "   tiles " ++ String.intercalate " " (ts.map tileText)).toList ++
  (m.placements.getD []).map placementLine ++
  (m.tilesLeft.map fun n => s!"   {n} tiles left").toList ++
  ((m.finalBoards.map Table.entries).getD []).map fun (name, ps) =>
    s!"   {name} finished with {ps.length} tiles"

end TileRace.Client
