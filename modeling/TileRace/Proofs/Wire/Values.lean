import TileRace.Proofs.Wire.Record

namespace TileRace

open Json

namespace Json

variable {α : Type} {denotes : α → Json → Prop} {f : Json → Option α}

theorem Items.read {l : List α} {v : Json} (h : Items denotes l v)
    (hread : ∀ a v, denotes a v → f v = some a) : v.list? f = some l := by
  obtain ⟨items, rfl, h⟩ := h
  induction h with
  | nil => rfl
  | cons ha _ ih =>
    rw [list?] at ih ⊢
    rw [List.mapM_cons, hread _ _ ha, ih]
    rfl

theorem items_map {toJson : α → Json} (h : ∀ a, denotes a (toJson a)) (l : List α) :
    Items denotes l (.arr (l.map toJson)) :=
  ⟨_, rfl, List.forall₂_map_right_iff.2 (List.forall₂_same.2 fun a _ => h a)⟩

theorem Optional.read {a : Option α} {o : Option Json} (h : Optional denotes a o)
    (hnull : f .null = none) (hread : ∀ a v, denotes a v → f v = some a) :
    optional? f o = some a := by
  cases a with
  | none => obtain rfl | rfl := h <;> rfl
  | some a =>
    obtain ⟨v, rfl, hv⟩ := h
    have hv := hread a v hv
    cases v with
    | null => simp [hnull] at hv
    | _ => simp [optional?, hv]

theorem optional_map {toJson : α → Json} (h : ∀ a, denotes a (toJson a)) (a : Option α) :
    Optional denotes a (a.map toJson) := by
  cases a with
  | none => exact .inl rfl
  | some a => exact ⟨_, rfl, h a⟩

theorem required {denotes : Json → Prop} {v : Json} (h : denotes v) : Required denotes (some v) :=
  ⟨v, rfl, h⟩

/-- The value that is written stands for a part, and no other does. -/
def Exactly (toJson : α → Json) (a : α) (v : Json) : Prop := v = toJson a

theorem exactly_self {toJson : α → Json} (a : α) : Exactly toJson a (toJson a) := rfl

theorem integer?_int {low high n : Int} (hlow : low ≤ n) (hhigh : n ≤ high) :
    (Json.int n).integer? low high = some n := by
  rw [integer?, if_pos ⟨hlow, hhigh⟩]

theorem u8?_ofNat (n : UInt8) : (Json.ofNat n.toNat).u8? = some n := by
  have hn := n.toNat_lt
  rw [u8?, Json.ofNat, integer?_int (by omega) (by simp only [UInt8.size]; omega)]
  simp

theorem u32?_ofNat (n : UInt32) : (Json.ofNat n.toNat).u32? = some n := by
  have hn := n.toNat_lt
  rw [u32?, Json.ofNat, integer?_int (by omega) (by simp only [UInt32.size]; omega)]
  simp

theorem u64?_ofNat (n : UInt64) : (Json.ofNat n.toNat).u64? = some n := by
  have hn := n.toNat_lt
  rw [u64?, Json.ofNat, integer?_int (by omega) (by simp only [UInt64.size]; omega)]
  simp

theorem i32?_int (n : Int32) : (Json.int n.toInt).i32? = some n := by
  rw [i32?, integer?_int n.minValue_le_toInt n.toInt_le]
  simp

end Json

theorem Status.ofJson?_toJson (s : Status) : Status.ofJson? s.toJson = some s := by
  rw [Status.ofJson?, Status.toJson, u8?_ofNat]
  cases s <;> rfl

theorem Kind.ofJson?_toJson (k : Kind) : Kind.ofJson? k.toJson = some k := by
  rw [Kind.ofJson?, Kind.toJson, u8?_ofNat]
  cases k <;> rfl

namespace Tile

def fields (t : Tile) : List Field :=
  [⟨"id", Required (Exactly (fun n => .ofNat n.toNat) t.id)⟩,
   ⟨"ch", Required (Exactly (fun c => .ofString (String.ofList [c])) t.letter)⟩]

def Denotes (t : Tile) (v : Json) : Prop := Record t.fields v

variable {t : Tile} {v : Json}

theorem ofJson?_of_denotes (h : t.Denotes v) : ofJson? v = some t := by
  obtain ⟨field, hread, hfields⟩ := h.read (by simp [fields])
  simp only [fields, List.forall_mem_cons] at hfields
  obtain ⟨⟨_, hid, rfl⟩, ⟨_, hletter, rfl⟩, -⟩ := hfields
  have hread : v.record? ["id", "ch"] = some field := hread
  simp [ofJson?, hread, hid, hletter, u32?_ofNat, char?, Json.ofString]

theorem denotes_toJson (t : Tile) : t.Denotes t.toJson := by
  have hvalues : List.Forall₂ Field.allows t.fields _ :=
    .cons (required rfl) (.cons (required rfl) .nil)
  exact record_present hvalues (by simp [fields])

end Tile

namespace Placement

def fields (p : Placement) : List Field :=
  [⟨"tile", Required p.tile.Denotes⟩,
   ⟨"x", Required (Exactly (fun n => .int n.toInt) p.x)⟩,
   ⟨"y", Required (Exactly (fun n => .int n.toInt) p.y)⟩]

def Denotes (p : Placement) (v : Json) : Prop := Record p.fields v

variable {p : Placement} {v : Json}

theorem ofJson?_of_denotes (h : p.Denotes v) : ofJson? v = some p := by
  obtain ⟨field, hread, hfields⟩ := h.read (by simp [fields])
  simp only [fields, List.forall_mem_cons] at hfields
  obtain ⟨⟨_, htile, hdenotes⟩, ⟨_, hx, rfl⟩, ⟨_, hy, rfl⟩, -⟩ := hfields
  have hread : v.record? ["tile", "x", "y"] = some field := hread
  simp [ofJson?, hread, htile, Tile.ofJson?_of_denotes hdenotes, hx, hy, i32?_int]

theorem denotes_toJson (p : Placement) : p.Denotes p.toJson := by
  have hvalues : List.Forall₂ Field.allows p.fields _ :=
    .cons (required p.tile.denotes_toJson) (.cons (required rfl) (.cons (required rfl) .nil))
  exact record_present hvalues (by simp [fields])

end Placement

namespace Grid

def fields (g : Grid) : List Field :=
  [⟨"numRows", Required (Exactly (fun n => .ofNat n.toNat) g.rows)⟩,
   ⟨"numCols", Required (Exactly (fun n => .ofNat n.toNat) g.columns)⟩]

def Denotes (g : Grid) (v : Json) : Prop := Record g.fields v

variable {g : Grid} {v : Json}

theorem ofJson?_of_denotes (h : g.Denotes v) : ofJson? v = some g := by
  obtain ⟨field, hread, hfields⟩ := h.read (by simp [fields])
  simp only [fields, List.forall_mem_cons] at hfields
  obtain ⟨⟨_, hrows, rfl⟩, ⟨_, hcolumns, rfl⟩, -⟩ := hfields
  have hread : v.record? ["numRows", "numCols"] = some field := hread
  simp [ofJson?, hread, hrows, hcolumns, u64?_ofNat]

theorem denotes_toJson (g : Grid) : g.Denotes g.toJson := by
  have hvalues : List.Forall₂ Field.allows g.fields _ :=
    .cons (required rfl) (.cons (required rfl) .nil)
  exact record_present hvalues (by simp [fields])

end Grid

namespace Rules

def fields (r : Rules) : List Field :=
  [⟨"checkOnSnag", Required (Exactly .bool r.checkOnSnag)⟩,
   ⟨"penalize", Required (Exactly .bool r.penalize)⟩,
   ⟨"minLength", Required (Exactly (fun n => .ofNat n.toNat) r.minLength)⟩,
   ⟨"allowDuplicates", Required (Exactly .bool r.allowDuplicates)⟩]

def Denotes (r : Rules) (v : Json) : Prop := Record r.fields v

variable {r : Rules} {v : Json}

theorem ofJson?_of_denotes (h : r.Denotes v) : ofJson? v = some r := by
  obtain ⟨field, hread, hfields⟩ := h.read (by simp [fields])
  simp only [fields, List.forall_mem_cons] at hfields
  obtain ⟨⟨_, hcheck, rfl⟩, ⟨_, hpenalize, rfl⟩, ⟨_, hlength, rfl⟩, ⟨_, hduplicates, rfl⟩, -⟩ :=
    hfields
  have hread : v.record? ["checkOnSnag", "penalize", "minLength", "allowDuplicates"] =
    some field := hread
  simp [ofJson?, hread, hcheck, hpenalize, hlength, hduplicates, bool?, u64?_ofNat]

theorem denotes_toJson (r : Rules) : r.Denotes r.toJson := by
  have hvalues : List.Forall₂ Field.allows r.fields _ :=
    .cons (required rfl) (.cons (required rfl) (.cons (required rfl) (.cons (required rfl) .nil)))
  exact record_present hvalues (by simp [fields])

end Rules

namespace Summary

def fields (g : Summary) : List Field :=
  [⟨"id", Required (Exactly (fun n => .ofNat n.toNat) g.id)⟩,
   ⟨"status", Required (Exactly Status.toJson g.status)⟩,
   ⟨"players", Required (Items (Exactly .ofString) g.players)⟩,
   ⟨"capacity", Required (Exactly (fun n => .ofNat n.toNat) g.capacity)⟩,
   ⟨"createdAt", Required (Exactly (fun n => .ofNat n.toNat) g.createdAt)⟩]

def Denotes (g : Summary) (v : Json) : Prop := Record g.fields v

variable {g : Summary} {v : Json}

theorem ofJson?_of_denotes (h : g.Denotes v) : ofJson? v = some g := by
  obtain ⟨field, hread, hfields⟩ := h.read (by simp [fields])
  simp only [fields, List.forall_mem_cons] at hfields
  obtain ⟨⟨_, hid, rfl⟩, ⟨_, hstatus, rfl⟩, ⟨players, hplayers, hnames⟩, ⟨_, hcapacity, rfl⟩,
    ⟨_, hcreated, rfl⟩, -⟩ := hfields
  have hnames : players.list? Json.string? = some g.players := hnames.read fun _ _ h => h ▸ rfl
  have hread : v.record? ["id", "status", "players", "capacity", "createdAt"] = some field := hread
  simp [ofJson?, hread, hid, hstatus, hplayers, hnames, hcapacity, hcreated, u32?_ofNat, u64?_ofNat,
    Status.ofJson?_toJson]

theorem denotes_toJson (g : Summary) : g.Denotes g.toJson := by
  have hvalues : List.Forall₂ Field.allows g.fields _ :=
    .cons (required rfl) (.cons (required rfl) (.cons (required (items_map exactly_self _))
      (.cons (required rfl) (.cons (required rfl) .nil))))
  exact record_present hvalues (by simp [fields])

end Summary

def FinalBoards (t : Table String (List Placement)) (v : Json) : Prop :=
  ∃ boards members, v = .obj members ∧
    List.Forall₂ (fun (b : String × List Placement) (m : Option String × Json) =>
      m.1 = some b.1 ∧ Items Placement.Denotes b.2 m.2) boards members ∧
    ∀ name, t.get? name = boards.reverse.lookup name

theorem finalBoardsOfJson?_of_finalBoards {t : Table String (List Placement)} {v : Json}
    (h : FinalBoards t v) : finalBoardsOfJson? v = some t := by
  obtain ⟨boards, members, rfl, hmembers, hlast⟩ := h
  have hread : (members.mapM fun m => do
      let name ← m.1
      let placements ← m.2.list? Placement.ofJson?
      return (name, placements)) = some boards := by
    clear hlast
    induction hmembers with
    | nil => rfl
    | cons hb _ ih =>
      rw [List.mapM_cons, ih, hb.1, hb.2.read fun _ _ h => Placement.ofJson?_of_denotes h]
      rfl
  have ht : Table.ofList boards = t := Table.ext_get? fun k => by rw [Table.get?_ofList, hlast]
  simp only [finalBoardsOfJson?]
  rw [hread]
  exact congrArg some ht

theorem finalBoards_toJson (t : Table String (List Placement)) :
    FinalBoards t (finalBoardsToJson t) := by
  refine ⟨t.entries, _, rfl, ?_, t.get?_eq_lookup_reverse⟩
  rw [List.map_map]
  exact List.forall₂_map_right_iff.2 (List.forall₂_same.2 fun e _ =>
    ⟨rfl, items_map Placement.denotes_toJson e.2⟩)

end TileRace
