import Mathlib.Data.List.Basic

namespace TileRace.Text

def utf8 (cs : List Char) : List UInt8 := cs.flatMap String.utf8EncodeChar

@[simp] theorem utf8_nil : utf8 [] = [] := rfl

@[simp] theorem utf8_cons (c : Char) (cs : List Char) :
    utf8 (c :: cs) = String.utf8EncodeChar c ++ utf8 cs := rfl

@[simp] theorem utf8_append (cs ds : List Char) : utf8 (cs ++ ds) = utf8 cs ++ utf8 ds :=
  List.flatMap_append

def spelled? (bytes : List UInt8) : Option (List Char) :=
  (String.fromUTF8? bytes.toByteArray).map String.toList

theorem toByteArray_injective {a b : List UInt8} (h : a.toByteArray = b.toByteArray) : a = b := by
  have hdata : a.toArray = b.toArray := by
    rw [← List.data_toByteArray, ← List.data_toByteArray, h]
  simpa using congrArg Array.toList hdata

theorem spelled_utf8 (cs : List Char) : spelled? (utf8 cs) = some cs := by
  have hvalid : (utf8 cs).toByteArray.IsValidUTF8 := ⟨cs, rfl⟩
  have htext : String.fromUTF8 (utf8 cs).toByteArray hvalid = String.ofList cs := by
    rw [← String.toByteArray_inj, String.toByteArray_ofList]
    rfl
  simp [spelled?, String.fromUTF8?, hvalid, htext]

theorem spelled_eq_some {bytes : List UInt8} {cs : List Char} :
    spelled? bytes = some cs ↔ bytes = utf8 cs := by
  constructor
  · intro h
    by_cases hvalid : bytes.toByteArray.IsValidUTF8
    · obtain ⟨ds, hds⟩ := hvalid
      have hbytes : bytes = utf8 ds := toByteArray_injective hds
      subst hbytes
      rw [spelled_utf8] at h
      rw [Option.some.inj h]
    · simp [spelled?, String.fromUTF8?, hvalid] at h
  · rintro rfl
    exact spelled_utf8 cs

theorem utf8_injective : Function.Injective utf8 := fun cs ds h =>
  Option.some.inj (by rw [← spelled_utf8 cs, h, spelled_utf8])

theorem fromUTF8_eq_some {bytes : ByteArray} {text : String} :
    String.fromUTF8? bytes = some text ↔ bytes.data.toList = utf8 text.toList := by
  have hbytes : bytes.data.toList.toByteArray = bytes := by
    ext1
    simp
  have h := @spelled_eq_some bytes.data.toList text.toList
  rw [spelled?, hbytes, Option.map_eq_some_iff] at h
  rw [← h]
  constructor
  · exact fun htext => ⟨text, htext, rfl⟩
  · rintro ⟨other, hother, hsame⟩
    rwa [String.toList_inj.mp hsame] at hother

theorem encode_ascii {c : Char} (h : c.val ≤ 127) : String.utf8EncodeChar c = [c.toUInt8] :=
  String.utf8EncodeChar_eq_singleton (Char.utf8Size_eq_one_iff.mpr h)

theorem encode_high {c : Char} (h : ¬ c.val ≤ 127) :
    ∀ b ∈ String.utf8EncodeChar c, 128 ≤ b := by
  have hlow : ¬ c.val.toNat ≤ 127 := h
  have hlimit : c.val.toNat < 1114112 := by
    rcases c.valid with hc | ⟨_, hc⟩ <;> omega
  simp only [String.utf8EncodeChar, hlow, if_false, UInt8.le_iff_toNat_le, UInt8.reduceToNat]
  split_ifs <;>
    simp only [List.mem_cons, List.not_mem_nil, or_false, forall_eq_or_imp, forall_eq,
      UInt8.toNat_ofNat'] <;> omega

theorem toUInt8_inj {c d : Char} (hc : c.val ≤ 127) (hd : d.val ≤ 127)
    (h : c.toUInt8 = d.toUInt8) : c = d := by
  have hsame : c.val.toNat % 256 = d.val.toNat % 256 := congrArg UInt8.toNat h
  have hc' : c.val.toNat ≤ 127 := hc
  have hd' : d.val.toNat ≤ 127 := hd
  exact Char.ext (UInt32.toNat_inj.mp (by omega))

theorem toUInt8_lt {c : Char} (h : c.val ≤ 127) : c.toUInt8 < 128 := by
  have h' : c.val.toNat ≤ 127 := h
  rw [UInt8.lt_iff_toNat_lt]
  show c.val.toNat % 256 < 128
  omega

theorem mem_utf8 {d : Char} (hd : d.val ≤ 127) {cs : List Char} :
    d.toUInt8 ∈ utf8 cs ↔ d ∈ cs := by
  constructor
  · intro h
    obtain ⟨c, hc, hmem⟩ := List.mem_flatMap.mp h
    by_cases hascii : c.val ≤ 127
    · rw [encode_ascii hascii, List.mem_singleton] at hmem
      rwa [toUInt8_inj hd hascii hmem]
    · exact absurd (encode_high hascii _ hmem) (by simpa using toUInt8_lt hd)
  · intro h
    exact List.mem_flatMap.mpr ⟨d, h, by simp [encode_ascii hd]⟩

end TileRace.Text
