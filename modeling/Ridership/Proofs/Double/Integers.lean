import Ridership.Proofs.Double.Arithmetic

/-!
# Integers as doubles

An integer is read as the nearest double, which is the integer itself when it has no more than 53
bits. A double that is not negative is cut to 32 bits by dropping its fraction.
-/

namespace Ridership.Double

open Float.Model (Format UnpackedFloat totalExponent)
open Float.Model.UnpackedFloat

variable {m n : Nat} {e : Int} {x : Float}

/-! ## From integers -/

theorem round_magnitude (hm : 0 < m) (e : Int) :
    (packed (round Format.binary64 .positive m e)).isNaN = false ∧
      value (packed (round Format.binary64 .positive m e)) =
        nearest ((m * 2 ^ e : ℝ) : EReal) := by
  have htarget : Format.binary64.targetExponent (totalExponent m e) = lastPlace (m * 2 ^ e) := by
    rw [targetExponent_totalExponent, lastPlace, log_eq (records_exact m e) hm]
  have hamount : e - (e - lastPlace (m * 2 ^ e)).toNat + (e - lastPlace (m * 2 ^ e)).toNat = e :=
    sub_add_cancel _ _
  have hrecords := records_exact (m <<< (e - lastPlace (m * 2 ^ e)).toNat)
    (e - (e - lastPlace (m * 2 ^ e)).toNat)
  rw [magnitude_shiftLeft, hamount] at hrecords
  have hround : round Format.binary64 .positive m e =
      roundWithAccuracy Format.binary64 .positive (m <<< (e - lastPlace (m * 2 ^ e)).toNat)
        (e - (e - lastPlace (m * 2 ^ e)).toNat) .exact := by
    simp only [Float.Model.UnpackedFloat.round, htarget, decreaseExponent]
  rw [hround]
  exact round_recorded hrecords (Nat.shiftLeft_pos_iff.mpr hm) (by omega)

theorem log_natCast (hn : 0 < n) : Int.log 2 (n : ℝ) = n.log2 := by
  have hlog := log_eq (records_exact n 0) hn
  rwa [zpow_zero, mul_one, add_zero] at hlog

/-- A number that fits the bits of a double is not changed. -/
theorem nearest_natCast (hn : n < 2 ^ 53) : nearest (n : ℝ) = (n : ℝ) := by
  rcases Nat.eq_zero_or_pos n with rfl | hpos
  · simpa using nearest_zero
  have hlog := log_natCast hpos
  have hlast : lastPlace (n : ℝ) ≤ 0 := by
    have := (Nat.log2_lt hpos.ne').mpr hn
    rw [lastPlace, hlog]
    omega
  have hscaled : (n : ℝ) / 2 ^ lastPlace (n : ℝ) =
      ((n * 2 ^ (-lastPlace (n : ℝ)).toNat : ℕ) : ℝ) := by
    push_cast
    rw [← zpow_natCast, Int.toNat_of_nonneg (by omega), zpow_neg, div_eq_mul_inv]
  have hrounded : rounded (n : ℝ) = n := by
    rw [rounded_eq, hscaled, halfEven_natCast, ← hscaled,
      div_mul_cancel₀ _ (zpow_pos two_pos _).ne']
  have hsmall : (n : ℝ) < 2 ^ 1024 := by
    calc (n : ℝ)
        < 2 ^ 53 := by exact_mod_cast hn
      _ ≤ 2 ^ 1024 := pow_le_pow_right₀ one_le_two (by omega)
  rw [nearest_coe, hrounded, if_pos hsmall]

theorem nearest_nonneg {v : EReal} (h : 0 ≤ v) : 0 ≤ nearest v :=
  nearest_zero ▸ nearest_mono (le_refl _) h

theorem reading_toFloat {k : UInt64} (hk : k.toNat < 2 ^ 53) :
    k.toFloat.isNaN = false ∧ reading k.toFloat = ((k.toNat : ℝ) : EReal) := by
  show (packed (UnpackedFloat.normalize Format.binary64 (k.toNat : ℤ) 0 .positive)).isNaN =
      false ∧
    value (packed (UnpackedFloat.normalize Format.binary64 (k.toNat : ℤ) 0 .positive)) = _
  generalize k.toNat = n at hk ⊢
  rcases Nat.eq_zero_or_pos n with rfl | hpos
  · exact ⟨congrArg isNaN unpack_packedZero,
      (congrArg value unpack_packedZero).trans (by simp [value])⟩
  · have hnormalize : UnpackedFloat.normalize Format.binary64 (n : ℤ) 0 .positive =
        UnpackedFloat.round Format.binary64 .positive n 0 := by
      rw [UnpackedFloat.normalize, compare_gt_iff_gt.mpr (Int.natCast_pos.mpr hpos)]
      rfl
    have hround := round_magnitude hpos 0
    rw [zpow_zero, mul_one, nearest_natCast hk] at hround
    rwa [hnormalize]

theorem reading_one : reading (Float.ofBits 0x3FF0000000000000) = ((1 : ℝ) : EReal) := by
  show ((((2 ^ 52 : ℕ) : ℝ) * 2 ^ (-52 : ℤ) : ℝ) : EReal) = ((1 : ℝ) : EReal)
  congr 1
  norm_num

/-- A natural number of no more than 53 bits is made of a machine integer. -/
theorem reading_ofNat_short (hn : n < 2 ^ 53) :
    (Float.ofNat n).isNaN = false ∧ reading (Float.ofNat n) = nearest (n : ℝ) := by
  have hdef : Float.ofNat n = n.toUInt64.toFloat * Float.ofBits 0x3FF0000000000000 := by
    show Float.ofScientific n false 0 = _
    rw [Float.ofScientific, dif_pos ⟨hn, by omega⟩]
    rfl
  have hk : n.toUInt64.toNat = n := UInt64.toNat_ofNat_of_lt (by
    have : UInt64.size = 2 ^ 64 := rfl
    omega)
  obtain ⟨hnumber, hreading⟩ := reading_toFloat (k := n.toUInt64) (by omega)
  rw [hk] at hreading
  have hn0 : 0 ≤ reading n.toUInt64.toFloat :=
    hreading ▸ EReal.coe_nonneg.mpr (Nat.cast_nonneg n)
  have hone : 0 ≤ reading (Float.ofBits 0x3FF0000000000000) :=
    reading_one ▸ EReal.coe_nonneg.mpr zero_le_one
  have hproduct := mul_number hnumber (y := Float.ofBits 0x3FF0000000000000) rfl hn0 hone
    (hreading ▸ EReal.coe_ne_top _) (reading_one ▸ EReal.coe_ne_top _)
  rw [hdef]
  refine ⟨hproduct, ?_⟩
  rw [reading_mul hnumber rfl hproduct hn0 hone, hreading, reading_one, ← EReal.coe_mul, mul_one]

/-- A longer one is multiplied by one, with 53 bits of zeros behind it. -/
theorem reading_ofNat_long (hn : 2 ^ 53 ≤ n) :
    (Float.ofNat n).isNaN = false ∧ reading (Float.ofNat n) = nearest (n : ℝ) := by
  have hpos : 0 < n := by omega
  have hdef : Float.ofNat n = .ofModel (.pack (mul Format.binary64
      (.finite .positive (n <<< 53) (-53) (Nat.shiftLeft_pos_iff.mpr hpos))
      (.finite .positive 1 0 one_pos))) := by
    show Float.ofScientific n false 0 = _
    rw [Float.ofScientific, dif_neg (by omega)]
    show Float.ofModel (.pack (ofScientific Format.binary64 n 0)) = _
    rw [ofScientific, dif_neg hpos.ne', if_neg (by decide),
      if_neg (show ¬(0 : Int) < -((2 ^ 11 : Int) + n.log2) by omega), if_pos le_rfl]
    rfl
  have hsame : (((n <<< 53 : ℕ) : ℝ) * 2 ^ (-53 : ℤ) * ((1 : ℕ) * 2 ^ (0 : ℤ)) : ℝ) = n := by
    rw [magnitude_shiftLeft]
    simp
  have hplace : (-53 : ℤ) + (0 : ℤ) ≤ lastPlace
      (((n <<< 53 : ℕ) : ℝ) * 2 ^ (-53 : ℤ) * ((1 : ℕ) * 2 ^ (0 : ℤ))) := by
    rw [hsame, lastPlace, log_natCast hpos]
    omega
  have hmul := mul_finite (Nat.shiftLeft_pos_iff.mpr hpos) one_pos hplace
  rw [hsame] at hmul
  rw [hdef, isNaN_pack, reading_pack]
  exact hmul

/-- A natural number is read as the nearest double. -/
theorem reading_ofNat (n : Nat) :
    (Float.ofNat n).isNaN = false ∧ reading (Float.ofNat n) = nearest (n : ℝ) := by
  rcases lt_or_ge n (2 ^ 53) with hn | hn
  · exact reading_ofNat_short hn
  · exact reading_ofNat_long hn

theorem reading_neg (x : Float) : reading (-x) = -reading x := by
  have hshaped : Shaped x.toModel.unpack := unpack_shaped _
  show value (packed x.toModel.unpack.neg) = -value x.toModel.unpack
  generalize x.toModel.unpack = u at hshaped ⊢
  match u with
  | .notANumber =>
    exact (congrArg value (packed_shaped (u := .notANumber) trivial)).trans neg_zero.symm
  | .infinity .positive => exact congrArg value (unpack_packedInfinity _)
  | .infinity .negative => exact congrArg value (unpack_packedInfinity _)
  | .zero s => exact (congrArg value unpack_packedZero).trans neg_zero.symm
  | .finite .positive m e h =>
    exact congrArg value (packed_shaped (u := .finite .negative m e h) hshaped)
  | .finite .negative m e h =>
    refine (congrArg value (packed_shaped (u := .finite .positive m e h) hshaped)).trans ?_
    exact (neg_neg _).symm

/-! ## To integers -/

theorem roundToInt_eq_floor (m : Nat) (e : Int) :
    roundToInt .positive m e = (⌊(m * 2 ^ e : ℝ)⌋₊ : ℤ) := by
  have hscale : (2 : ℝ) ^ (e - e.toNat) * 2 ^ (0 - (e - e.toNat)).toNat = 1 := by
    rw [← zpow_natCast, ← zpow_add₀ two_ne_zero]
    have hzero : (e - e.toNat : ℤ) + ((0 - (e - e.toNat)).toNat : ℤ) = 0 := by omega
    rw [hzero, zpow_zero]
  have hrecords := (records_exact (m <<< e.toNat) (e - e.toNat)).shiftRight
    (0 - (e - e.toNat)).toNat
  rw [div_div, hscale, div_one, magnitude_shiftLeft, sub_add_cancel] at hrecords
  rw [hrecords.floor]
  simp only [roundToInt, decreaseExponent, shiftToExponent, sub_zero]
  rfl

theorem toNat_ofNatClamp (n : Nat) : (UInt32.ofNatClamp n).toNat = min n (UInt32.size - 1) := by
  unfold UInt32.ofNatClamp
  split
  · next h =>
    rw [Nat.min_eq_left (by omega)]
    exact UInt32.toNat_ofNatLT
  · next h =>
    rw [Nat.min_eq_right (by omega)]
    exact UInt32.toNat_ofNatLT

/-- A double that is not negative loses its fraction, and what 32 bits cannot hold. -/
theorem toNat_toUInt32 {r : ℝ} (hr : 0 ≤ r) (h : reading x = r) :
    x.toUInt32.toNat = min ⌊r⌋₊ (UInt32.size - 1) := by
  have htoInt : (x.toModel.unpack.toInt 0 (UInt32.size - 1)).toNat = ⌊r⌋₊ := by
    unfold reading at h
    generalize x.toModel.unpack = u at h ⊢
    have hzero (hz : ((0 : ℝ) : EReal) = r) : ⌊r⌋₊ = 0 := by
      rw [← EReal.coe_eq_coe_iff.mp hz, Nat.floor_zero]
    match u with
    | .notANumber => exact (hzero h).symm
    | .infinity .positive => exact absurd h.symm (EReal.coe_ne_top r)
    | .infinity .negative => exact absurd h.symm (EReal.coe_ne_bot r)
    | .zero _ => exact (hzero h).symm
    | .finite .positive m e _ =>
      rw [← EReal.coe_eq_coe_iff.mp h]
      exact (congrArg Int.toNat (roundToInt_eq_floor m e)).trans (Int.toNat_natCast _)
    | .finite .negative m e hm =>
      have hneg := EReal.coe_eq_coe_iff.mp h
      have hpos := magnitude_pos hm e
      linarith
  show (UInt32.ofNatClamp (x.toModel.unpack.toInt 0 (UInt32.size - 1)).toNat).toNat = _
  rw [htoInt, toNat_ofNatClamp]

end Ridership.Double
