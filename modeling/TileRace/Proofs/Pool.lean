import Mathlib.Data.List.Nodup
import TileRace.Shuffle.Basic
import TileRace.Tile

namespace TileRace

theorem Tile.length_number (id : TileId) (cs : List Char) : (number id cs).length = cs.length := by
  induction cs generalizing id with
  | nil => rfl
  | cons c cs ih => rw [number, List.length_cons, ih, List.length_cons]

theorem Tile.id_of_mem_number {id : TileId} {cs : List Char} {t : Tile} (h : t ∈ number id cs) :
    ∃ k < cs.length, t.id = id + UInt32.ofNat k := by
  induction cs generalizing id with
  | nil => cases h
  | cons c cs ih =>
    obtain rfl | h := List.mem_cons.1 h
    · exact ⟨0, Nat.succ_pos _, (UInt32.add_zero id).symm⟩
    · obtain ⟨k, hk, ht⟩ := ih h
      refine ⟨k + 1, Nat.succ_lt_succ hk, ht.trans ?_⟩
      rw [UInt32.ofNat_add, UInt32.add_assoc, UInt32.add_comm 1]
      rfl

theorem Tile.number_ids_nodup (id : TileId) {cs : List Char} (h : cs.length ≤ UInt32.size) :
    ((number id cs).map (·.id)).Nodup := by
  induction cs generalizing id with
  | nil => exact .nil
  | cons c cs ih =>
    have hlen : cs.length + 1 ≤ UInt32.size := h
    refine List.nodup_cons.2 ⟨fun hm => ?_, ih (id + 1) (by omega)⟩
    obtain ⟨t, ht, he⟩ := List.mem_map.1 hm
    obtain ⟨k, hk, hid⟩ := id_of_mem_number ht
    have hz := congrArg UInt32.toNat hid
    simp only [he, UInt32.toNat_add, UInt32.toNat_ofNat', UInt32.toNat_ofNat] at hz
    have hlt := id.toNat_lt
    rw [UInt32.size] at hlen
    omega

theorem Tile.ofLetters_ids_nodup {letters : String}
    (h : (ofLetters letters).length ≤ UInt32.size) :
    ((ofLetters letters).map (·.id)).Nodup :=
  number_ids_nodup 1 (length_number _ _ ▸ h)

theorem Shuffler.exchange_perm {α : Type} (items : List α) (xs : List (Nat × Nat)) :
    (exchange items xs).Perm items := by
  have h : ∀ a : Array α, (xs.foldl (fun a x => a.swapIfInBounds x.1 x.2) a).Perm a := by
    induction xs with
    | nil => exact fun a => .refl a
    | cons x xs ih =>
      intro a
      refine (ih _).trans ?_
      simp only [Array.swapIfInBounds_def]
      split
      · split
        · exact Array.swap_perm _ _
        · exact .refl a
      · exact .refl a
  exact (h items.toArray).toList

theorem Shuffler.shuffle_perm {α : Type} (s : Shuffler) (items : List α) :
    (s.shuffle items).1.Perm items :=
  exchange_perm items _

end TileRace
