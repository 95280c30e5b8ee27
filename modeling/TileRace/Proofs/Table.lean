import TileRace.Table

namespace TileRace.Table

section Lookup

variable {κ α : Type} [DecidableEq κ]

theorem lookup_cons_ite (a : κ) (w : α) (l : List (κ × α)) (k : κ) :
    List.lookup k ((a, w) :: l) = if k = a then some w else l.lookup k := by
  by_cases hk : k = a
  · simp [hk]
  · have hb : (k == a) = false := by simpa using hk
    simp [List.lookup_cons, hb, hk]

theorem lookup_eq_some_iff_mem {l : List (κ × α)} (hl : (l.map (·.1)).Nodup) {k : κ} {v : α} :
    l.lookup k = some v ↔ (k, v) ∈ l := by
  induction l with
  | nil => simp
  | cons e l ih =>
    obtain ⟨a, w⟩ := e
    obtain ⟨he, hl⟩ := List.nodup_cons.1 hl
    rw [lookup_cons_ite]
    by_cases hk : k = a
    · subst hk
      have hn : (k, v) ∉ l := fun h => he (List.mem_map.2 ⟨_, h, rfl⟩)
      simp [hn, eq_comm]
    · simp [ih hl, hk]

theorem lookup_filter_ne (l : List (κ × α)) (k k' : κ) :
    (l.filter (·.1 ≠ k)).lookup k' = if k' = k then none else l.lookup k' := by
  induction l with
  | nil => simp
  | cons e l ih =>
    obtain ⟨a, w⟩ := e
    by_cases ha : a = k
    · subst ha
      rw [List.filter_cons_of_neg (by simp), ih, lookup_cons_ite]
      split <;> rfl
    · rw [List.filter_cons_of_pos (by simpa using ha), lookup_cons_ite, lookup_cons_ite, ih]
      by_cases hk : k' = a
      · simp [hk, ha]
      · simp [hk]

theorem lookup_map {β : Type} (f : κ → α → β) (l : List (κ × α)) (k : κ) :
    (l.map fun e => (e.1, f e.1 e.2)).lookup k = (l.lookup k).map (f k) := by
  induction l with
  | nil => rfl
  | cons e l ih =>
    obtain ⟨a, w⟩ := e
    rw [List.map_cons, lookup_cons_ite, lookup_cons_ite, ih]
    by_cases hk : k = a <;> simp [hk]

theorem lookup_zip {ks : List κ} {vs : List α} (hn : ks.Nodup) {i : Nat} {k : κ}
    (hi : ks[i]? = some k) : (ks.zip vs).lookup k = vs[i]? := by
  induction ks generalizing vs i with
  | nil => simp at hi
  | cons a ks ih =>
    cases vs with
    | nil => simp
    | cons w vs =>
      obtain ⟨ha, hn⟩ := List.nodup_cons.1 hn
      rw [List.zip_cons_cons, lookup_cons_ite]
      cases i with
      | zero =>
        obtain rfl : a = k := by simpa using hi
        rw [if_pos rfl, List.getElem?_cons_zero]
      | succ i =>
        rw [List.getElem?_cons_succ] at hi ⊢
        rw [if_neg fun h : k = a => ha (h ▸ List.mem_of_getElem? hi), ih hn hi]

theorem lookup_put [Ord κ] [Std.LawfulEqOrd κ] (k : κ) (v : α) (l : List (κ × α))
    (k' : κ) : (put k v l).lookup k' = if k' = k then some v else l.lookup k' := by
  induction l with
  | nil => rw [put, lookup_cons_ite]
  | cons e l ih =>
    obtain ⟨a, w⟩ := e
    simp only [put]
    split
    · rw [lookup_cons_ite]
    · rename_i ha
      have ha : k = a := Std.LawfulEqOrd.eq_of_compare ha
      rw [lookup_cons_ite, lookup_cons_ite, ha]
      split <;> rfl
    · rename_i ha
      have ha : a ≠ k := fun he => by simp [he] at ha
      rw [lookup_cons_ite, lookup_cons_ite, ih]
      by_cases hk : k' = a
      · simp [hk, ha]
      · simp [hk]

end Lookup

variable {κ α β : Type} [Ord κ]

section Order

variable [Std.TransOrd κ]

theorem keys_nodup (t : Table κ α) : t.keys.Nodup := by
  refine List.pairwise_map.2 (t.sorted.imp fun {a b} h (he : a.1 = b.1) => ?_)
  simp [he] at h

theorem entries_nodup (t : Table κ α) : t.entries.Nodup :=
  (List.pairwise_map.1 t.keys_nodup).imp fun h he => h (congrArg Prod.fst he)

variable [DecidableEq κ]

theorem get?_eq_some_iff {t : Table κ α} {k : κ} {v : α} :
    t.get? k = some v ↔ (k, v) ∈ t.entries :=
  lookup_eq_some_iff_mem t.keys_nodup

theorem mem_values {t : Table κ α} {v : α} : v ∈ t.values ↔ ∃ k, t.get? k = some v := by
  simp [values, get?_eq_some_iff]

theorem mem_keys {t : Table κ α} {k : κ} : k ∈ t.keys ↔ ∃ v, t.get? k = some v := by
  simp [keys, get?_eq_some_iff]

theorem not_mem_keys {t : Table κ α} {k : κ} : k ∉ t.keys ↔ t.get? k = none := by
  rw [mem_keys, Option.eq_none_iff_forall_ne_some, not_exists]

theorem size_eq_zero_iff {t : Table κ α} : t.size = 0 ↔ ∀ k, t.get? k = none := by
  rw [size, List.length_eq_zero_iff, List.eq_nil_iff_forall_not_mem]
  refine ⟨fun h k => ?_, fun h e he => ?_⟩
  · rw [Option.eq_none_iff_forall_ne_some]
    exact fun v hv => h (k, v) (get?_eq_some_iff.1 hv)
  · have hs := get?_eq_some_iff.2 he
    rw [h] at hs
    cases hs

theorem ext_get? {s t : Table κ α} (h : ∀ k, s.get? k = t.get? k) : s = t := by
  refine ext (List.Perm.eq_of_pairwise (fun _ _ _ _ hab hba => ?_) s.sorted t.sorted
    ((List.perm_ext_iff_of_nodup s.entries_nodup t.entries_nodup).2 fun e => ?_))
  · exact (Std.OrientedCmp.not_lt_of_lt hab hba).elim
  · rw [← get?_eq_some_iff, ← get?_eq_some_iff, h]

end Order

section Get

variable [DecidableEq κ]

@[simp] theorem get?_empty (k : κ) : (empty : Table κ α).get? k = none := rfl

theorem get?_insert [Std.TransOrd κ] [Std.LawfulEqOrd κ] (t : Table κ α) (k : κ) (v : α) (k' : κ) :
    (t.insert k v).get? k' = if k' = k then some v else t.get? k' :=
  lookup_put k v t.entries k'

theorem get?_erase (t : Table κ α) (k k' : κ) :
    (t.erase k).get? k' = if k' = k then none else t.get? k' :=
  lookup_filter_ne t.entries k k'

theorem get?_map (f : κ → α → β) (t : Table κ α) (k : κ) :
    (t.map f).get? k = (t.get? k).map (f k) :=
  lookup_map f t.entries k

theorem get?_modify (t : Table κ α) (k : κ) (f : α → α) (k' : κ) :
    (t.modify k f).get? k' = if k' = k then (t.get? k').map f else t.get? k' := by
  rw [modify, get?_map]
  by_cases hk : k' = k <;> simp [hk]

omit [DecidableEq κ] in
theorem keys_map (f : κ → α → β) (t : Table κ α) : (t.map f).keys = t.keys := by
  simp [keys, map]

theorem keys_modify (t : Table κ α) (k : κ) (f : α → α) : (t.modify k f).keys = t.keys :=
  keys_map _ t

end Get

variable [Std.TransOrd κ] [DecidableEq κ]

theorem entries_perm_cons {t : Table κ α} {k : κ} {v : α} (h : t.get? k = some v) :
    t.entries.Perm ((k, v) :: (t.erase k).entries) := by
  have hn : (k, v) ∉ (t.erase k).entries := by simp [erase]
  refine (List.perm_ext_iff_of_nodup t.entries_nodup
    (List.nodup_cons.2 ⟨hn, (t.erase k).entries_nodup⟩)).2 fun e => ?_
  obtain ⟨a, w⟩ := e
  rw [List.mem_cons, ← get?_eq_some_iff, ← get?_eq_some_iff, get?_erase]
  by_cases ha : a = k
  · subst ha
    simp [h, eq_comm]
  · simp [ha]

theorem values_perm_cons {t : Table κ α} {k : κ} {v : α} (h : t.get? k = some v) :
    t.values.Perm (v :: (t.erase k).values) :=
  (entries_perm_cons h).map _

theorem erase_of_get?_eq_none {t : Table κ α} {k : κ} (h : t.get? k = none) : t.erase k = t := by
  refine ext_get? fun k' => ?_
  rw [get?_erase]
  split
  · rename_i hk
    rw [hk, h]
  · rfl

theorem erase_modify (t : Table κ α) (k : κ) (f : α → α) : (t.modify k f).erase k = t.erase k := by
  refine ext_get? fun k' => ?_
  rw [get?_erase, get?_erase, get?_modify]
  split <;> rfl

theorem values_modify_perm {t : Table κ α} {k : κ} {v : α} (h : t.get? k = some v) (f : α → α) :
    (t.modify k f).values.Perm (f v :: (t.erase k).values) := by
  rw [← erase_modify t k f]
  exact values_perm_cons (by rw [get?_modify, if_pos rfl, h, Option.map_some])

variable [Std.LawfulEqOrd κ]

theorem erase_insert (t : Table κ α) (k : κ) (v : α) : (t.insert k v).erase k = t.erase k := by
  refine ext_get? fun k' => ?_
  rw [get?_erase, get?_erase, get?_insert]
  split <;> rfl

theorem values_insert_perm (t : Table κ α) (k : κ) (v : α) :
    (t.insert k v).values.Perm (v :: (t.erase k).values) := by
  rw [← erase_insert t k v]
  exact values_perm_cons (by rw [get?_insert, if_pos rfl])

omit [Std.LawfulEqOrd κ] in
theorem get?_eq_lookup_reverse (t : Table κ α) (k : κ) :
    t.get? k = t.entries.reverse.lookup k := by
  have hn : (t.entries.reverse.map (·.1)).Nodup := by
    rw [List.map_reverse]
    exact List.pairwise_reverse.2 (t.keys_nodup.imp Ne.symm)
  refine Option.ext fun v => ?_
  rw [get?_eq_some_iff, lookup_eq_some_iff_mem hn, List.mem_reverse]

theorem get?_foldl_insert (l : List (κ × α)) (t : Table κ α) (k : κ) :
    (l.foldl (fun t e => t.insert e.1 e.2) t).get? k = (l.reverse.lookup k).or (t.get? k) := by
  induction l generalizing t with
  | nil => rfl
  | cons e l ih =>
    rw [List.foldl_cons, ih, get?_insert, List.reverse_cons, List.lookup_append, lookup_cons_ite,
      Option.or_assoc]
    split <;> rfl

theorem get?_ofList (l : List (κ × α)) (k : κ) : (ofList l).get? k = l.reverse.lookup k := by
  rw [ofList, get?_foldl_insert, get?_empty, Option.or_none]

omit [Std.TransOrd κ] [DecidableEq κ] [Std.LawfulEqOrd κ] in
theorem length_values (t : Table κ α) : t.values.length = t.size := List.length_map _

omit [Std.TransOrd κ] [Std.LawfulEqOrd κ] in
theorem values_erase_sublist (t : Table κ α) (k : κ) : (t.erase k).values.Sublist t.values :=
  List.filter_sublist.map _

theorem size_insert_le (t : Table κ α) (k : κ) (v : α) : (t.insert k v).size ≤ t.size + 1 := by
  have hlength := (t.values_insert_perm k v).length_eq
  rw [List.length_cons, length_values] at hlength
  have hle := (t.values_erase_sublist k).length_le
  rw [length_values t] at hle
  omega

theorem count_values_insert_le [DecidableEq α] (t : Table κ α) (k : κ) (v w : α) :
    (t.insert k v).values.count w ≤ t.values.count w + if v = w then 1 else 0 := by
  rw [(t.values_insert_perm k v).count_eq, List.count_cons]
  have hle := (t.values_erase_sublist k).count_le w
  by_cases hv : v = w <;> simp [hv] <;> omega

theorem map_insert (f : κ → α → β) (t : Table κ α) (k : κ) (v : α) :
    (t.insert k v).map f = (t.map f).insert k (f k v) := by
  refine ext_get? fun k' => ?_
  rw [get?_map, get?_insert, get?_insert, get?_map]
  split
  · rename_i hk
    rw [hk, Option.map_some]
  · rfl

omit [Std.LawfulEqOrd κ] in
theorem map_erase (f : κ → α → β) (t : Table κ α) (k : κ) :
    (t.erase k).map f = (t.map f).erase k := by
  refine ext_get? fun k' => ?_
  rw [get?_map, get?_erase, get?_erase, get?_map]
  split <;> rfl

omit [Std.LawfulEqOrd κ] in
theorem map_modify {f : κ → α → β} {g : α → α} (h : ∀ k v, f k (g v) = f k v) (t : Table κ α)
    (k : κ) : (t.modify k g).map f = t.map f := by
  refine ext_get? fun k' => ?_
  rw [get?_map, get?_modify, get?_map]
  split
  · rw [Option.map_map]
    exact congrArg (Option.map · _) (funext fun v => h k' v)
  · rfl

end TileRace.Table
