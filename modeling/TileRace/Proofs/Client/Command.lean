import TileRace.Client.Command
import TileRace.Proofs.Text.Fields
import TileRace.Proofs.Wire.Message

namespace TileRace.Client

open TileRace.Text

variable {line : String} {m : Message}

theorem parse_of_spaced {command : String} {words : List (List Char)}
    (h : Spaced (command.toList :: words) line.toList) :
    parse line = (request command words).map some := by
  unfold parse
  rw [h.fields_eq]
  exact congrArg (fun c => (request c words).map some) String.ofList_toList

theorem tile_eq_ok {id : UInt32} {w : List Char} (hid : Unsigned id.toNat w) (c : Char)
    (cs : List Char) (words : List (List Char)) :
    tile (w :: (c :: cs) :: words) = .ok ⟨id, c.toUpper⟩ := by
  have hread : (w :: (c :: cs) :: words).head?.bind u32? = some id := u32?_of_unsigned hid
  rw [tile, hread]
  rfl

theorem placement_eq_ok {id : UInt32} {x y : Int32} {w v u : List Char}
    (hid : Unsigned id.toNat w) (c : Char) (cs : List Char) (hx : Signed x.toInt v)
    (hy : Signed y.toInt u) : placement [w, c :: cs, v, u] = .ok ⟨⟨id, c.toUpper⟩, x, y⟩ := by
  have hplace : [v, u].filterMap i32? = [x, y] := by
    rw [List.filterMap_cons_some (i32?_of_signed hx), List.filterMap_cons_some (i32?_of_signed hy),
      List.filterMap_nil]
  simp only [placement, tile_eq_ok hid, List.drop, hplace]
  rfl

theorem chat_info (words : List (List Char)) :
    String.ofList ([' '].intercalate words) = " ".intercalate (words.map String.ofList) := by
  apply String.toList_inj.mp
  rw [String.toList_intercalate, List.map_map, String.toList_ofList]
  simp [Function.comp_def]

variable {words : List (List Char)}

theorem socket_of_join (h : join words = .ok m) : m.socket = none := by
  unfold join at h
  split at h
  · contradiction
  · obtain rfl := Except.ok.inj h
    rfl

theorem socket_of_swap (h : swap words = .ok m) : m.socket = none := by
  cases ht : tile words with
  | error e =>
    rw [swap, ht] at h
    contradiction
  | ok t =>
    rw [swap, ht] at h
    obtain rfl := Except.ok.inj h
    rfl

theorem socket_of_move (h : move words = .ok m) : m.socket = none := by
  cases hp : placement words with
  | error e =>
    rw [move, hp] at h
    contradiction
  | ok p =>
    rw [move, hp] at h
    obtain rfl := Except.ok.inj h
    rfl

theorem socket_of_request {command : String} (h : request command words = .ok m) :
    m.socket = none := by
  unfold request at h
  split at h
  case h_2 => exact socket_of_join h
  case h_8 => exact socket_of_swap h
  case h_9 => exact socket_of_move h
  case h_13 => contradiction
  all_goals
    obtain rfl := Except.ok.inj h
    rfl

theorem socket_of_parse (h : parse line = .ok (some m)) : m.socket = none := by
  unfold parse at h
  split at h
  case h_1 => cases h
  case h_2 command words _ =>
    cases hr : request (String.ofList command) words with
    | error e =>
      rw [hr] at h
      contradiction
    | ok m' =>
      rw [hr] at h
      obtain rfl := Option.some.inj (Except.ok.inj h)
      exact socket_of_request hr

/-- A command asks for what stands in its line, however the line is spaced and its numbers are
written, and the server reads what was asked for. -/
theorem says_what_was_typed :
    (∀ (line : String) (id : UInt32) (w : List Char), Unsigned id.toNat w →
      Spaced ["join".toList, w] line.toList →
      parse line = .ok (some ((Message.ofKind .joinGame).withGameId id))) ∧
    (∀ (line : String) (id : UInt32) (w : List Char) (c : Char) (cs : List Char),
      Unsigned id.toNat w → Spaced ["swap".toList, w, c :: cs] line.toList →
      parse line = .ok (some { Message.ofKind .swapGameTile with
        tiles := some [⟨id, c.toUpper⟩] })) ∧
    (∀ (line : String) (id : UInt32) (x y : Int32) (w : List Char) (c : Char) (cs v u : List Char),
      Unsigned id.toNat w → Signed x.toInt v → Signed y.toInt u →
      Spaced ["move".toList, w, c :: cs, v, u] line.toList →
      parse line = .ok (some { Message.ofKind .moveGameTiles with
        placements := some [⟨⟨id, c.toUpper⟩, x, y⟩] })) ∧
    (∀ (line : String) (words : List (List Char)), Spaced ("chat".toList :: words) line.toList →
      parse line = .ok (some { Message.ofKind .gameChat with
        info := some (" ".intercalate (words.map String.ofList)) })) ∧
    ∀ (line : String) (m : Message), parse line = .ok (some m) →
      Message.decode? (symbolsOf (String.ofList m.encode)) = some m := by
  refine ⟨?_, ?_, ?_, ?_, ?_⟩
  · intro line id w hid hline
    have hread : [w].head?.bind u32? = some id := u32?_of_unsigned hid
    rw [parse_of_spaced hline, request, join, hread]
    rfl
  · intro line id w c cs hid hline
    rw [parse_of_spaced hline, request, swap, tile_eq_ok hid]
    rfl
  · intro line id x y w c cs v u hid hx hy hline
    rw [parse_of_spaced hline, request, move, placement_eq_ok hid c cs hx hy]
    rfl
  · intro line words hline
    rw [parse_of_spaced hline, request, chat, chat_info]
    rfl
  · intro line m hparse
    have hplain : symbolsOf (String.ofList m.encode) = Json.plain m.encode := by
      rw [symbolsOf, String.toList_ofList, Json.plain]
    rw [hplain, Message.decode?_plain_encode, ← socket_of_parse hparse]

theorem says_what_was_typed_move :
    parse "\u2003move\t +07 aXY \n -2147483648 \u3000+9 " =
      .ok (some { Message.ofKind .moveGameTiles with
        placements := some [⟨⟨7, 'A'⟩, -2147483648, 9⟩] }) ∧
    Message.decode? (symbolsOf (String.ofList ({ Message.ofKind .moveGameTiles with
      placements := some [⟨⟨7, 'A'⟩, -2147483648, 9⟩] } : Message).encode)) =
        some { Message.ofKind .moveGameTiles with
          placements := some [⟨⟨7, 'A'⟩, -2147483648, 9⟩] } := by
  have hid : Unsigned (7 : UInt32).toNat ['+', '0', '7'] := .plus ⟨1, rfl⟩
  have hx : Signed (-(2147483648 : Nat)) ['-', '2', '1', '4', '7', '4', '8', '3', '6', '4', '8'] :=
    .minus ⟨0, by decide⟩
  have hy : Signed (9 : Nat) ['+', '9'] := .unsigned (.plus ⟨0, by decide⟩)
  have hline : Spaced ["move".toList, ['+', '0', '7'], ['a', 'X', 'Y'],
      ['-', '2', '1', '4', '7', '4', '8', '3', '6', '4', '8'], ['+', '9']]
      (['\u2003'] ++ ("move".toList ++ '\t' :: ([' '] ++ (['+', '0', '7'] ++ ' ' :: ([] ++
        (['a', 'X', 'Y'] ++ ' ' :: (['\n', ' '] ++
          (['-', '2', '1', '4', '7', '4', '8', '3', '6', '4', '8'] ++ ' ' ::
            (['\u3000'] ++ (['+', '9'] ++ ' ' :: [])))))))))) := by
    repeat refine .word (List.all_eq_true.mp rfl) nofun (List.any_eq_false.mp rfl) rfl ?_
    exact .blank (List.all_eq_true.mp rfl)
  have hparse := says_what_was_typed.2.2.1
    "\u2003move\t +07 aXY \n -2147483648 \u3000+9 " 7 (-2147483648) 9 _ 'a' ['X', 'Y'] _ _
    hid hx hy hline
  exact ⟨hparse, says_what_was_typed.2.2.2.2 _ _ hparse⟩

end TileRace.Client
