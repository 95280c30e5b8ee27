import TileRace.Proofs.Wire.Message

namespace TileRace

open Json Text

namespace Json

variable {α : Type} {names : List String} {v : Json} {f : Json → Option α}

theorem record?_of_repeated (h : Repeated names (fun _ _ => False) v) (hn : names.Nodup) :
    v.record? names = none := by
  cases hread : v.record? names with
  | none => rfl
  | some field =>
    obtain ⟨_, _, _, _, hinside⟩ := h.inside_of_read hn hread
    exact hinside.elim

def SomeItem (p : Json → Prop) (v : Json) : Prop := ∃ items, v = .arr items ∧ ∃ w ∈ items, p w

theorem mapM_eq_none {β : Type} {f : β → Option α} {l : List β} {b : β} (hb : b ∈ l)
    (h : f b = none) : l.mapM f = none := by
  induction l with
  | nil => cases hb
  | cons c l ih =>
    rw [List.mapM_cons]
    rcases List.mem_cons.1 hb with rfl | hb
    · rw [h]
      rfl
    · rw [ih hb]
      cases f c <;> rfl

theorem list?_of_someItem {p : Json → Prop} (h : SomeItem p v) (hread : ∀ w, p w → f w = none) :
    v.list? f = none := by
  obtain ⟨items, rfl, w, hw, hp⟩ := h
  exact mapM_eq_none hw (hread w hp)

theorem not_someItem_null {p : Json → Prop} : ¬ SomeItem p .null := by
  rintro ⟨_, h, _⟩
  cases h

theorem optional?_ne_some {p : Json → Prop} (hp : p v) (hnull : ¬ p .null) (h : f v = none)
    {a : Option α} : optional? f (some v) ≠ some a := by
  cases v with
  | null => exact absurd hp hnull
  | _ => simp [optional?, h]

end Json

variable {v : Json}

def Tile.Repeats : Json → Prop := Repeated ["id", "ch"] fun _ _ => False

def Placement.Repeats : Json → Prop :=
  Repeated ["tile", "x", "y"] fun n v => n = "tile" ∧ Tile.Repeats v

def Grid.Repeats : Json → Prop := Repeated ["numRows", "numCols"] fun _ _ => False

def Rules.Repeats : Json → Prop :=
  Repeated ["checkOnSnag", "penalize", "minLength", "allowDuplicates"] fun _ _ => False

def Summary.Repeats : Json → Prop :=
  Repeated ["id", "status", "players", "capacity", "createdAt"] fun _ _ => False

def FinalBoards.Repeats (v : Json) : Prop :=
  ∃ members, v = .obj members ∧ ∃ m ∈ members, SomeItem Placement.Repeats m.2

def Message.Repeats : Json → Prop :=
  Repeated Message.fieldNames fun n v =>
    n = "game" ∧ Summary.Repeats v ∨ n = "games" ∧ SomeItem Summary.Repeats v ∨
    n = "tiles" ∧ SomeItem Tile.Repeats v ∨ n = "tilePositions" ∧ SomeItem Placement.Repeats v ∨
    n = "boardConfig" ∧ Grid.Repeats v ∨ n = "gameRules" ∧ Rules.Repeats v ∨
    n = "finalBoards" ∧ FinalBoards.Repeats v

theorem Tile.ofJson?_of_repeats (h : Repeats v) : ofJson? v = none := by
  simp [ofJson?, record?_of_repeated h (by decide)]

theorem Grid.ofJson?_of_repeats (h : Repeats v) : ofJson? v = none := by
  simp [ofJson?, record?_of_repeated h (by decide)]

theorem Rules.ofJson?_of_repeats (h : Repeats v) : ofJson? v = none := by
  simp [ofJson?, record?_of_repeated h (by decide)]

theorem Summary.ofJson?_of_repeats (h : Repeats v) : ofJson? v = none := by
  simp [ofJson?, record?_of_repeated h (by decide)]

theorem Placement.ofJson?_of_repeats (h : Repeats v) : ofJson? v = none := by
  cases hread : v.record? ["tile", "x", "y"] with
  | none => simp [ofJson?, hread]
  | some field =>
    obtain ⟨_, -, w, hw, rfl, hinside⟩ := h.inside_of_read (by decide) hread
    simp [ofJson?, hread, hw, Tile.ofJson?_of_repeats hinside]

theorem finalBoardsOfJson?_of_repeats (h : FinalBoards.Repeats v) :
    finalBoardsOfJson? v = none := by
  obtain ⟨members, rfl, m, hm, hinside⟩ := h
  simp only [finalBoardsOfJson?]
  rw [mapM_eq_none hm]
  · rfl
  · rw [list?_of_someItem hinside fun _ h => Placement.ofJson?_of_repeats h]
    cases m.1 <;> rfl

namespace Message

theorem ofJson?_of_repeats (h : Repeats v) : ofJson? v = none := by
  refine Option.eq_none_iff_forall_ne_some.2 fun m hm => ?_
  obtain ⟨field, hread, hfields⟩ := readAs_of_ofJson? hm
  obtain ⟨n, -, w, hw, hinside⟩ := h.inside_of_read (by decide) hread
  have hrecords {p : Json → Prop} {α : Type} {f : Json → Option α} (h : SomeItem p w)
      (hf : ∀ v, p v → f v = none) {a : Option (List α)} : optional? (list? f) (some w) ≠ some a :=
    optional?_ne_some h not_someItem_null (list?_of_someItem h hf)
  rcases hinside with ⟨rfl, h⟩ | ⟨rfl, h⟩ | ⟨rfl, h⟩ | ⟨rfl, h⟩ | ⟨rfl, h⟩ | ⟨rfl, h⟩ | ⟨rfl, h⟩
  · exact optional?_ne_some h id (Summary.ofJson?_of_repeats h) (hw ▸ hfields.game)
  · exact hrecords h (fun _ h => Summary.ofJson?_of_repeats h) (hw ▸ hfields.games)
  · exact hrecords h (fun _ h => Tile.ofJson?_of_repeats h) (hw ▸ hfields.tiles)
  · exact hrecords h (fun _ h => Placement.ofJson?_of_repeats h) (hw ▸ hfields.placements)
  · exact optional?_ne_some h id (Grid.ofJson?_of_repeats h) (hw ▸ hfields.grid)
  · exact optional?_ne_some h id (Rules.ofJson?_of_repeats h) (hw ▸ hfields.rules)
  · have hnull : ¬ FinalBoards.Repeats .null := by
      rintro ⟨_, h, _⟩
      cases h
    exact optional?_ne_some h hnull (finalBoardsOfJson?_of_repeats h) (hw ▸ hfields.finalBoards)

/-- A message is read from every spelling of every value that stands for it, and nothing is read
from a spelling of a value in which a field is repeated. -/
theorem decode?_spelling {xs : List Symbol} (h : Padded (Spells v) xs) :
    (∀ m : Message, m.Denotes v → decode? xs = some m) ∧ (Repeats v → decode? xs = none) := by
  rw [decode?, parse?_padded h]
  exact ⟨fun _ => ofJson?_of_denotes, ofJson?_of_repeats⟩

/-- A chat behind an unknown member, its text given by a surrogate pair; and the same with the text
given twice. -/
theorem decode?_spelling_chat :
    let unknown := plain ['"', 'x', '"', ':', '[', '\x7b', '\x7d', ']']
    let kind := plain [',', '"', 't', 'y', 'p', 'e', '"', ' ', ':', '\t', '9']
    let text := plain [',', '"', 'i', 'n', 'f', 'o', '"', ':', '"', '\\', 'u', 'D', '8', '3', 'd',
      '\\', 'u', 'd', 'e', '0', '0', '"']
    let chat : Message := { kind := .gameChat, info := some (String.ofList [Char.ofNat 0x1F600]) }
    decode? (some '\x7b' :: (unknown ++ (kind ++ (text ++ [some '\x7d'])))) = some chat ∧
      decode? (some '\x7b' :: (unknown ++ (kind ++ (text ++ (text ++ [some '\x7d']))))) = none := by
  intro unknown kind text chat
  let x : Option String × Json := (some "x", .arr [.obj []])
  let t : Option String × Json := (some "type", .int 9)
  let i : Option String × Json := (some "info", .ofString (String.ofList [Char.ofNat 0x1F600]))
  have hkey (s : String) : SpellsString (some s) (plain (renderText (some s))) :=
    spellsString_renderText (some s)
  have hpair : SpellsChar (Char.ofNat 0x1F600)
      (plain ['\\', 'u', 'D', '8', '3', 'd'] ++ plain ['\\', 'u', 'd', 'e', '0', '0']) :=
    .pair (by decide)
      (.digits (p := 13) (q := 8) (r := 3) (s := 13) ⟨by decide, by decide⟩ ⟨by decide, by decide⟩
        ⟨by decide, by decide⟩ ⟨by decide, by decide⟩)
      (.digits (p := 13) (q := 14) (r := 0) (s := 0) ⟨by decide, by decide⟩ ⟨by decide, by decide⟩
        ⟨by decide, by decide⟩ ⟨by decide, by decide⟩)
  have htext (ms : List (Option String × Json)) (zs : List Symbol) (h : SpellsMembers ms zs) :
      SpellsMembers (i :: ms) (text ++ zs) :=
    ⟨_, _, zs, padded_self (hkey "info"), padded_self ⟨_, .cons hpair .nil, rfl⟩, h, rfl⟩
  have hkind (ms : List (Option String × Json)) (zs : List Symbol) (h : SpellsMembers ms zs) :
      SpellsMembers (t :: ms) (kind ++ zs) :=
    ⟨_, _, zs, ⟨[], _, [some ' '], blank_nil, hkey "type", ⟨[' '], by simp [spaces], rfl⟩, rfl⟩,
      ⟨[some '\t'], _, [], ⟨['\t'], by simp [spaces], rfl⟩, rfl, blank_nil, rfl⟩, h, rfl⟩
  have hall (ms : List (Option String × Json)) (zs : List Symbol) (h : SpellsMembers ms zs) :
      Padded (Spells (.obj (x :: t :: ms))) (some '\x7b' :: (unknown ++ (kind ++ zs))) :=
    padded_self ⟨_, _, _, padded_self (hkey "x"), padded_self (spells_render _), hkind ms zs h, rfl⟩
  have hdenotes : chat.Denotes (.obj [x, t, i]) := by
    refine ⟨rfl, .object (by simp [x, t, i]) ?_⟩
    have habsent {α : Type} (p : α → Json → Prop) (n : String) (hn : n ∉ ["x", "type", "info"]) :
        ∃ o : Option Json, Optional p none o ∧ named n [x, t, i] = o.toList := by
      simp only [List.mem_cons, not_or] at hn
      refine ⟨none, .inl rfl, ?_⟩
      simp [named, x, t, i, Ne.symm hn.1, Ne.symm hn.2.1, Ne.symm hn.2.2.1]
    simp only [fields, List.forall_mem_cons]
    refine ⟨⟨some t.2, required rfl, by simp [named, x, t, i]⟩,
      ⟨some i.2, required rfl, by simp [named, x, t, i]⟩, ?_⟩
    refine ⟨?_, ?_, ?_, ?_, ?_, ?_, ?_, ?_, ?_, ?_, ?_, by simp⟩
    all_goals exact habsent _ _ (by decide)
  have hrepeats : Repeats (.obj [x, t, i, i]) :=
    ⟨"info", by decide, .inl (by simp [named, x, t, i])⟩
  exact ⟨(decode?_spelling (hall [i] _ (htext [] _ rfl))).1 chat hdenotes,
    (decode?_spelling (hall [i, i] _ (htext [i] _ (htext [] _ rfl)))).2 hrepeats⟩

end Message

end TileRace
