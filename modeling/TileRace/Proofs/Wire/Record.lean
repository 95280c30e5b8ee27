import Mathlib.Data.List.Forall2
import TileRace.Proofs.Table
import TileRace.Wire

namespace TileRace.Json

structure Field where
  name : String
  allows : Option Json → Prop

def Required (denotes : Json → Prop) (o : Option Json) : Prop := ∃ v, o = some v ∧ denotes v

def Optional {α : Type} (denotes : α → Json → Prop) : Option α → Option Json → Prop
  | none, o => o = none ∨ o = some .null
  | some a, o => Required (denotes a) o

def Items {α : Type} (denotes : α → Json → Prop) (l : List α) (v : Json) : Prop :=
  ∃ items, v = .arr items ∧ List.Forall₂ denotes l items

def named (n : String) (members : List (Option String × Json)) : List Json :=
  (members.filter fun m => m.1 = some n).map (·.2)

inductive Record (fields : List Field) : Json → Prop where
  | object {members} (texts : ∀ m ∈ members, m.1 ≠ none)
    (known : ∀ f : Field, f ∈ fields →
      ∃ o : Option Json, f.allows o ∧ named f.name members = o.toList) :
    Record fields (.obj members)
  | array {items : List Json} (cut : items.length ≤ fields.length)
    (known : ∀ (i : Nat) (f : Field), fields[i]? = some f → f.allows items[i]?) :
    Record fields (.arr items)

variable {fields : List Field} {names : List String} {members : List (Option String × Json)}
  {v w : Json} {n : String}

theorem named_cons (m : Option String × Json) :
    named n (m :: members) = if m.1 = some n then m.2 :: named n members else named n members := by
  by_cases h : m.1 = some n <;> simp [named, h]

theorem lookup_eq_head?_named : members.lookup (some n) = (named n members).head? := by
  induction members with
  | nil => rfl
  | cons m members ih =>
    rw [List.lookup_cons, named_cons, ih]
    by_cases hk : m.1 = some n
    · simp [hk]
    · rw [if_neg hk, beq_eq_false_iff_ne.2 (Ne.symm hk)]

theorem count_eq_length_named : (members.map (·.1)).count (some n) = (named n members).length := by
  rw [named, List.length_map, List.count, List.countP_map, List.countP_eq_length_filter]
  congr 1
  exact List.filter_congr fun m _ => by simp [beq_eq_decide]

/-- Each field of a record is found under its name. -/
theorem Record.read (h : Record fields v) (hn : (fields.map Field.name).Nodup) :
    ∃ field, v.record? (fields.map Field.name) = some field ∧
      ∀ f ∈ fields, f.allows (field f.name) := by
  cases h with
  | object texts known =>
    rename_i members
    have hone : ∀ n ∈ fields.map Field.name, (members.map (·.1)).count (some n) ≤ 1 := by
      intro n hmem
      obtain ⟨f, hf, rfl⟩ := List.mem_map.1 hmem
      obtain ⟨o, -, ho⟩ := known f hf
      rw [count_eq_length_named, ho]
      cases o <;> simp
    have htexts : (members.map (·.1)).all Option.isSome := by
      simpa [Option.isSome_iff_ne_none] using fun a b hab => texts (a, b) hab
    refine ⟨fun n => members.lookup (some n), if_pos ⟨htexts, by simpa using hone⟩, fun f hf => ?_⟩
    obtain ⟨o, hallows, ho⟩ := known f hf
    show f.allows (members.lookup (some f.name))
    rw [lookup_eq_head?_named, ho]
    cases o <;> exact hallows
  | array cut known =>
    rename_i items
    refine ⟨fun n => ((fields.map Field.name).zip items).lookup n, if_pos (by simpa using cut),
      fun f hf => ?_⟩
    obtain ⟨i, hi⟩ := List.getElem?_of_mem hf
    have hname : (fields.map Field.name)[i]? = some f.name := by
      rw [List.getElem?_map, hi]
      rfl
    show f.allows (((fields.map Field.name).zip items).lookup f.name)
    rw [Table.lookup_zip hn hname]
    exact known i f hi

def presentMembers (ms : List (String × Option Json)) : List (Option String × Json) :=
  ms.filterMap fun m => m.2.map fun v => (some m.1, v)

theorem present_eq (ms : List (String × Option Json)) : present ms = .obj (presentMembers ms) := by
  rw [present, Json.members, List.map_filterMap, presentMembers]
  simp only [Option.map_map, Function.comp_def]

theorem presentMembers_cons (m : String × Option Json) (ms : List (String × Option Json)) :
    presentMembers (m :: ms) =
      (m.2.map fun v => (some m.1, v)).toList ++ presentMembers ms := by
  rw [presentMembers, List.filterMap_cons]
  cases m.2 <;> rfl

theorem named_presentMembers_cons (m : String × Option Json) (ms : List (String × Option Json)) :
    named n (presentMembers (m :: ms)) =
      (if m.1 = n then m.2.toList else []) ++ named n (presentMembers ms) := by
  rw [presentMembers_cons]
  obtain ⟨a, o⟩ := m
  cases o with
  | none => simp
  | some v =>
    show named n ((some a, v) :: presentMembers ms) = _
    rw [named_cons]
    by_cases ha : a = n <;> simp [ha]

theorem named_presentMembers_of_notMem {ms : List (String × Option Json)}
    (h : n ∉ ms.map (·.1)) : named n (presentMembers ms) = [] := by
  induction ms with
  | nil => rfl
  | cons m ms ih =>
    obtain ⟨hm, hms⟩ := not_or.1 (List.mem_cons.not.1 h)
    rw [named_presentMembers_cons, if_neg (Ne.symm hm), ih hms, List.append_nil]

theorem named_presentMembers {ms : List (String × Option Json)} (hn : (ms.map (·.1)).Nodup)
    {o : Option Json} (h : (n, o) ∈ ms) : named n (presentMembers ms) = o.toList := by
  induction ms with
  | nil => cases h
  | cons m ms ih =>
    obtain ⟨hm, hn⟩ := List.nodup_cons.1 hn
    rw [named_presentMembers_cons]
    rcases List.mem_cons.1 h with rfl | h
    · rw [if_pos rfl, named_presentMembers_of_notMem hm, List.append_nil]
    · have hne : m.1 ≠ n := by
        rintro rfl
        exact hm (List.mem_map.2 ⟨_, h, rfl⟩)
      rw [if_neg hne, ih hn h, List.nil_append]

theorem record_present {values : List (Option Json)}
    (h : List.Forall₂ Field.allows fields values) (hn : (fields.map Field.name).Nodup) :
    Record fields (present ((fields.map Field.name).zip values)) := by
  have hnames : ((fields.map Field.name).zip values).map (·.1) = fields.map Field.name :=
    List.map_fst_zip (by simp [h.length_eq])
  rw [present_eq]
  refine .object (fun m hm => ?_) fun f hf => ?_
  · obtain ⟨⟨a, o⟩, -, ho⟩ := List.mem_filterMap.1 hm
    obtain ⟨v, -, rfl⟩ := Option.map_eq_some_iff.1 ho
    exact Option.some_ne_none a
  · obtain ⟨i, hi, rfl⟩ := List.getElem_of_mem hf
    have hvalue : i < values.length := h.length_eq ▸ hi
    refine ⟨values[i], h.get hi hvalue, named_presentMembers (by rwa [hnames]) ?_⟩
    have hlt : i < ((fields.map Field.name).zip values).length := by
      simp only [List.length_zip, List.length_map]
      omega
    have hzip := List.getElem_mem hlt
    simpa using hzip

/-- An object has a field twice, or the value of a field is wrong inside in the same way. -/
def Repeated (names : List String) (inside : String → Json → Prop) : Json → Prop
  | .obj members => ∃ n ∈ names,
      2 ≤ (named n members).length ∨ ∃ v ∈ named n members, inside n v
  | .arr items => ∃ m ∈ names.zip items, inside m.1 m.2
  | _ => False

theorem Repeated.inside_of_read {inside : String → Json → Prop} (h : Repeated names inside v)
    (hn : names.Nodup) {field : String → Option Json} (hread : v.record? names = some field) :
    ∃ n ∈ names, ∃ w, field n = some w ∧ inside n w := by
  match v, h with
  | .obj members, ⟨n, hmem, h⟩ =>
    rw [record?, Option.ite_none_right_eq_some] at hread
    obtain ⟨⟨-, hone⟩, hfield⟩ := hread
    have hle : (named n members).length ≤ 1 := by
      rw [← count_eq_length_named]
      simpa using List.all_eq_true.1 hone n hmem
    rcases h with htwice | ⟨w, hw, hinside⟩
    · omega
    · have hhead : (named n members).head? = some w := by
        match hnamed : named n members with
        | [] => simp [hnamed] at hw
        | [a] => simpa [hnamed, eq_comm] using hw
        | a :: b :: l => simp [hnamed] at hle
      refine ⟨n, hmem, w, ?_, hinside⟩
      rw [← Option.some.inj hfield, ← hhead]
      exact lookup_eq_head?_named
  | .arr items, ⟨⟨n, w⟩, hmem, hinside⟩ =>
    rw [record?, Option.ite_none_right_eq_some] at hread
    obtain ⟨-, hfield⟩ := hread
    refine ⟨n, (List.of_mem_zip hmem).1, w, ?_, hinside⟩
    rw [← Option.some.inj hfield]
    obtain ⟨i, hi⟩ := List.getElem?_of_mem hmem
    obtain ⟨hname, hitem⟩ := List.getElem?_zip_eq_some.1 hi
    exact (Table.lookup_zip hn hname).trans hitem

end TileRace.Json
