import Mathlib.Tactic.SplitIfs
import Ridership.Disk.Path

/-!
# Texts and their bytes

A text is known by its bytes, and what starts or ends with an ASCII character does so in its bytes
as well: the bytes of other characters are all above 127.
-/

namespace Ridership

variable {s t : String} {bytes : Bytes} {c d : Char} {b : UInt8}

theorem bytesOf_eq_flatMap (s : String) : bytesOf s = s.toList.flatMap String.utf8EncodeChar := by
  rw [bytesOf, String.toUTF8, ← String.utf8Encode_toList, List.utf8Encode, List.data_toByteArray]

theorem bytesOf_append (s t : String) : bytesOf (s ++ t) = bytesOf s ++ bytesOf t := by
  simp only [bytesOf_eq_flatMap, String.toList_append, List.flatMap_append]

theorem textOf?_eq_some_iff : textOf? bytes = some s ↔ bytesOf s = bytes := by
  have hbytes : bytes.toByteArray = s.toByteArray ↔ bytesOf s = bytes := by
    constructor
    · intro h
      rw [bytesOf, String.toUTF8, ← h, List.data_toByteArray]
    · rintro rfl
      refine ByteArray.ext (Array.ext' ?_)
      rw [List.data_toByteArray, bytesOf, String.toUTF8]
  rw [← hbytes, textOf?, String.fromUTF8?]
  split
  · next hvalid => rw [Option.some.injEq, ← String.toByteArray_inj, String.fromUTF8]
  · next hinvalid =>
    refine ⟨nofun, fun h => absurd ?_ hinvalid⟩
    rw [h]
    exact s.isValidUTF8

theorem textOf?_bytesOf (s : String) : textOf? (bytesOf s) = some s :=
  textOf?_eq_some_iff.mpr rfl

theorem bytesOf_injective : Function.Injective bytesOf := by
  intro s t h
  have hs := textOf?_bytesOf s
  rw [h, textOf?_bytesOf] at hs
  exact (Option.some.inj hs).symm

/-! ## ASCII characters -/

section Ascii

variable (hd : d.toNat = b.toNat) (hascii : d.toNat < 128)

include hd hascii

theorem utf8EncodeChar_ascii : String.utf8EncodeChar d = [b] := by
  have hsmall : d.val.toNat ≤ 127 := Nat.le_of_lt_succ hascii
  have hbyte : d.val.toNat = b.toNat := hd
  rw [String.utf8EncodeChar]
  simp only [if_pos hsmall]
  rw [hbyte, UInt8.ofNat_toNat]

/-- An ASCII byte is among the bytes of its own character only. -/
theorem eq_of_mem_utf8EncodeChar (h : b ∈ String.utf8EncodeChar c) : c = d := by
  have hbyte {n : Nat} (hn : n < 256) : b = UInt8.ofNat n ↔ n = b.toNat := by
    rw [← UInt8.toNat_inj, UInt8.toNat_ofNat_of_lt' hn, eq_comm]
  rw [← Char.toNat_inj, hd]
  have hnat : c.toNat = c.val.toNat := rfl
  simp only [String.utf8EncodeChar] at h
  split_ifs at h <;>
    simp (disch := omega) only [List.mem_cons, List.not_mem_nil, or_false, hbyte] at h <;> omega

theorem head?_bytesOf_iff : (bytesOf s).head? = some b ↔ s.toList.head? = some d := by
  rw [bytesOf_eq_flatMap]
  cases s.toList with
  | nil => exact ⟨nofun, nofun⟩
  | cons c rest =>
    rw [List.flatMap_cons, List.head?_append, List.head?_eq_some_head String.utf8EncodeChar_ne_nil,
      Option.some_or, List.head?_cons, Option.some.injEq, Option.some.injEq]
    constructor
    · intro h
      exact eq_of_mem_utf8EncodeChar hd hascii (h ▸ List.head_mem _)
    · rintro rfl
      simp only [utf8EncodeChar_ascii hd hascii, List.head_singleton]

theorem getLast?_bytesOf_iff : (bytesOf s).getLast? = some b ↔ s.toList.getLast? = some d := by
  rw [bytesOf_eq_flatMap]
  rcases List.eq_nil_or_concat s.toList with h | ⟨before, c, h⟩
  · rw [h]
    exact ⟨nofun, nofun⟩
  · rw [h, List.concat_eq_append, List.flatMap_append, List.flatMap_singleton,
      List.getLast?_append, List.getLast?_eq_some_getLast String.utf8EncodeChar_ne_nil,
      Option.some_or, List.getLast?_concat, Option.some.injEq, Option.some.injEq]
    constructor
    · intro h
      exact eq_of_mem_utf8EncodeChar hd hascii (h ▸ List.getLast_mem _)
    · rintro rfl
      simp only [utf8EncodeChar_ascii hd hascii, List.getLast_singleton]

end Ascii

end Ridership
