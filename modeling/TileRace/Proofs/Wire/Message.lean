import TileRace.Proofs.Json.Rendering
import TileRace.Proofs.Wire.Values

namespace TileRace.Message

open TileRace.Json TileRace.Text

def fields (m : Message) : List Field :=
  [⟨"type", Required (Exactly Kind.toJson m.kind)⟩,
   ⟨"info", Optional (Exactly .ofString) m.info⟩,
   ⟨"game", Optional Summary.Denotes m.game⟩,
   ⟨"games", Optional (Items Summary.Denotes) m.games⟩,
   ⟨"tiles", Optional (Items Tile.Denotes) m.tiles⟩,
   ⟨"tilePositions", Optional (Items Placement.Denotes) m.placements⟩,
   ⟨"tilesLeft", Optional (Exactly fun n => .ofNat n.toNat) m.tilesLeft⟩,
   ⟨"gameId", Optional (Exactly fun n => .ofNat n.toNat) m.gameId⟩,
   ⟨"playerName", Optional (Exactly .ofString) m.player⟩,
   ⟨"boardConfig", Optional Grid.Denotes m.grid⟩,
   ⟨"gameRules", Optional Rules.Denotes m.rules⟩,
   ⟨"rules", Optional (Items (Exactly .ofString)) m.ruleLines⟩,
   ⟨"finalBoards", Optional FinalBoards m.finalBoards⟩]

/-- The values that stand for a message. Nothing stands for a message that knows its socket. -/
def Denotes (m : Message) (v : Json) : Prop := m.socket = none ∧ Record m.fields v

variable {m : Message} {v : Json}

structure ReadAs (field : String → Option Json) (m : Message) : Prop where
  kind : (field "type").bind Kind.ofJson? = some m.kind
  info : optional? string? (field "info") = some m.info
  game : optional? Summary.ofJson? (field "game") = some m.game
  games : optional? (list? Summary.ofJson?) (field "games") = some m.games
  tiles : optional? (list? Tile.ofJson?) (field "tiles") = some m.tiles
  placements : optional? (list? Placement.ofJson?) (field "tilePositions") = some m.placements
  tilesLeft : optional? u64? (field "tilesLeft") = some m.tilesLeft
  gameId : optional? u32? (field "gameId") = some m.gameId
  player : optional? string? (field "playerName") = some m.player
  grid : optional? Grid.ofJson? (field "boardConfig") = some m.grid
  rules : optional? Rules.ofJson? (field "gameRules") = some m.rules
  ruleLines : optional? (list? string?) (field "rules") = some m.ruleLines
  finalBoards : optional? finalBoardsOfJson? (field "finalBoards") = some m.finalBoards
  socket : m.socket = none

theorem bind_of_eq_some {α β : Type} {x : Option α} {a : α} {f : α → Option β} (h : x = some a) :
    x.bind f = f a := by
  rw [h, Option.bind_some]

theorem readAs_of_ofJson? (h : ofJson? v = some m) :
    ∃ field, v.record? fieldNames = some field ∧ ReadAs field m := by
  obtain ⟨field, hread, h⟩ := Option.bind_eq_some_iff.1 h
  obtain ⟨w, hw, h⟩ := Option.bind_eq_some_iff.1 h
  obtain ⟨kind, hkind, h⟩ := Option.bind_eq_some_iff.1 h
  obtain ⟨info, hinfo, h⟩ := Option.bind_eq_some_iff.1 h
  obtain ⟨game, hgame, h⟩ := Option.bind_eq_some_iff.1 h
  obtain ⟨games, hgames, h⟩ := Option.bind_eq_some_iff.1 h
  obtain ⟨tiles, htiles, h⟩ := Option.bind_eq_some_iff.1 h
  obtain ⟨placements, hplacements, h⟩ := Option.bind_eq_some_iff.1 h
  obtain ⟨tilesLeft, hleft, h⟩ := Option.bind_eq_some_iff.1 h
  obtain ⟨gameId, hid, h⟩ := Option.bind_eq_some_iff.1 h
  obtain ⟨player, hplayer, h⟩ := Option.bind_eq_some_iff.1 h
  obtain ⟨grid, hgrid, h⟩ := Option.bind_eq_some_iff.1 h
  obtain ⟨rules, hrules, h⟩ := Option.bind_eq_some_iff.1 h
  obtain ⟨lines, hlines, h⟩ := Option.bind_eq_some_iff.1 h
  obtain ⟨boards, hboards, h⟩ := Option.bind_eq_some_iff.1 h
  obtain rfl := Option.some.inj h
  exact ⟨field, hread, (bind_of_eq_some hw).trans hkind, hinfo, hgame, hgames, htiles, hplacements,
    hleft, hid, hplayer, hgrid, hrules, hlines, hboards, rfl⟩

theorem ofJson?_of_readAs {field : String → Option Json} (hread : v.record? fieldNames = some field)
    (h : ReadAs field m) : ofJson? v = some m := by
  obtain ⟨w, hw, hkind⟩ := Option.bind_eq_some_iff.1 h.kind
  have hm : { m with socket := none } = m := by rw [← h.socket]
  calc ofJson? v
    _ = _ := bind_of_eq_some hread
    _ = _ := bind_of_eq_some hw
    _ = _ := bind_of_eq_some hkind
    _ = _ := bind_of_eq_some h.info
    _ = _ := bind_of_eq_some h.game
    _ = _ := bind_of_eq_some h.games
    _ = _ := bind_of_eq_some h.tiles
    _ = _ := bind_of_eq_some h.placements
    _ = _ := bind_of_eq_some h.tilesLeft
    _ = _ := bind_of_eq_some h.gameId
    _ = _ := bind_of_eq_some h.player
    _ = _ := bind_of_eq_some h.grid
    _ = _ := bind_of_eq_some h.rules
    _ = _ := bind_of_eq_some h.ruleLines
    _ = _ := bind_of_eq_some h.finalBoards
    _ = some m := congrArg some hm

theorem ofJson?_of_denotes (h : m.Denotes v) : ofJson? v = some m := by
  obtain ⟨hsocket, hrecord⟩ := h
  obtain ⟨field, hread, hfields⟩ := hrecord.read (by simp [fields])
  simp only [fields, List.forall_mem_cons] at hfields
  obtain ⟨⟨_, hw, rfl⟩, hinfo, hgame, hgames, htiles, hplacements, hleft, hid, hplayer, hgrid,
    hrules, hlines, hboards, -⟩ := hfields
  have hstring (s : String) (v : Json) (h : Exactly .ofString s v) : v.string? = some s := h ▸ rfl
  refine ofJson?_of_readAs hread ⟨?_, ?_, ?_, ?_, ?_, ?_, ?_, ?_, ?_, ?_, ?_, ?_, ?_, hsocket⟩
  · rw [hw]
    exact Kind.ofJson?_toJson m.kind
  · exact hinfo.read rfl hstring
  · exact hgame.read rfl fun _ _ h => Summary.ofJson?_of_denotes h
  · exact hgames.read rfl fun _ _ h => h.read fun _ _ h => Summary.ofJson?_of_denotes h
  · exact htiles.read rfl fun _ _ h => h.read fun _ _ h => Tile.ofJson?_of_denotes h
  · exact hplacements.read rfl fun _ _ h => h.read fun _ _ h => Placement.ofJson?_of_denotes h
  · exact hleft.read rfl fun n _ h => h ▸ u64?_ofNat n
  · exact hid.read rfl fun n _ h => h ▸ u32?_ofNat n
  · exact hplayer.read rfl hstring
  · exact hgrid.read rfl fun _ _ h => Grid.ofJson?_of_denotes h
  · exact hrules.read rfl fun _ _ h => Rules.ofJson?_of_denotes h
  · exact hlines.read rfl fun _ _ h => h.read hstring
  · exact hboards.read rfl fun _ _ h => finalBoardsOfJson?_of_finalBoards h

theorem denotes_toJson (m : Message) : { m with socket := none }.Denotes m.toJson := by
  have hvalues : List.Forall₂ Field.allows m.fields
      [some m.kind.toJson, m.info.map .ofString, m.game.map Summary.toJson,
       m.games.map fun gs => .arr (gs.map Summary.toJson),
       m.tiles.map fun ts => .arr (ts.map Tile.toJson), m.placements.map placementsToJson,
       m.tilesLeft.map fun n => .ofNat n.toNat, m.gameId.map fun n => .ofNat n.toNat,
       m.player.map .ofString, m.grid.map Grid.toJson, m.rules.map Rules.toJson,
       m.ruleLines.map fun ls => .arr (ls.map .ofString), m.finalBoards.map finalBoardsToJson] :=
    .cons (required rfl) <| .cons (optional_map exactly_self _) <|
    .cons (optional_map Summary.denotes_toJson _) <|
    .cons (optional_map (items_map Summary.denotes_toJson) _) <|
    .cons (optional_map (items_map Tile.denotes_toJson) _) <|
    .cons (optional_map (items_map Placement.denotes_toJson) _) <|
    .cons (optional_map exactly_self _) <| .cons (optional_map exactly_self _) <|
    .cons (optional_map exactly_self _) <| .cons (optional_map Grid.denotes_toJson _) <|
    .cons (optional_map Rules.denotes_toJson _) <|
    .cons (optional_map (items_map exactly_self) _) <|
    .cons (optional_map finalBoards_toJson _) .nil
  exact ⟨rfl, record_present hvalues (by simp [fields])⟩

theorem decode?_plain_encode (m : Message) :
    decode? (plain m.encode) = some { m with socket := none } := by
  rw [decode?, encode, parse?_render]
  exact ofJson?_of_denotes m.denotes_toJson

theorem socket_of_decode? {xs : List Symbol} (h : decode? xs = some m) : m.socket = none := by
  obtain ⟨_, -, hm⟩ := Option.bind_eq_some_iff.1 h
  obtain ⟨_, -, hfields⟩ := readAs_of_ofJson? hm
  exact hfields.socket

/-- A message comes back from its text without its socket, which the text does not show. What has
been decoded is the same when it is written and decoded once more. -/
theorem decode?_encode (m : Message) :
    decode? (symbolsOf (String.ofList m.encode)) = some { m with socket := none } ∧
      (∀ xs, decode? xs = some m → decode? (symbolsOf (String.ofList m.encode)) = some m) ∧
      ∀ socket, { m with socket := socket }.encode = m.encode := by
  have hplain : symbolsOf (String.ofList m.encode) = plain m.encode := by
    rw [symbolsOf, String.toList_ofList, plain]
  refine ⟨?_, fun xs h => ?_, fun _ => rfl⟩
  · rw [hplain, decode?_plain_encode]
  · rw [hplain, decode?_plain_encode, ← socket_of_decode? h]

theorem decode?_encode_warning :
    let m : Message := { kind := .socketWarning, info := some "\"\x00\\", tilesLeft := some 0 }
    let xs := plain ['[', '1', '3', ',', '"', '\\', '"', '\\', 'u', '0', '0', '0', '0',
      '\\', '\\', '"', ',', 'n', 'u', 'l', 'l', ',', 'n', 'u', 'l', 'l', ',', 'n', 'u', 'l', 'l', ',',
      'n', 'u', 'l', 'l', ',', '0', ']']
    decode? xs = some m ∧ decode? (symbolsOf (String.ofList m.encode)) = some m := by
  intro m xs
  have h : decode? xs = some m := by decide +kernel
  exact ⟨h, (decode?_encode m).2.1 xs h⟩

end TileRace.Message
