import Mathlib

/-!
# The numbers that doubles stand for

A double that is not a NaN stands for a real number or for one of the infinities. Doubles are
compared by their bits, exponent first; this compares the numbers they stand for.
-/

namespace Ridership.Double

open Float.Model (Format UnpackedFloat)
open Float.Model.UnpackedFloat

/-- The mantissas and exponents of finite doubles, but for the largest exponent. -/
structure Canonical (m : Nat) (e : Int) : Prop where
  pos : 0 < m
  lt : m < 2 ^ 53
  least : -1074 ≤ e
  full : -1074 < e → 2 ^ 52 ≤ m

/-- The number that an unpacked double stands for; a NaN counts as zero. -/
noncomputable def value : UnpackedFloat → EReal
  | .notANumber => 0
  | .infinity .positive => ⊤
  | .infinity .negative => ⊥
  | .zero _ => 0
  | .finite .positive m e _ => ((m * (2 : ℝ) ^ e : ℝ) : EReal)
  | .finite .negative m e _ => ((-(m * (2 : ℝ) ^ e) : ℝ) : EReal)

def Shaped : UnpackedFloat → Prop
  | .finite _ m e _ => Canonical m e ∧ e ≤ 971
  | _ => True

variable {m m' : Nat} {e e' : Int} {u v : UnpackedFloat}

/-! ## Packing -/

section

variable {s : Sign} {exponent : BitVec 11} {mantissa : BitVec 52}

theorem toNat_implicit (mantissa : BitVec 52) :
    (1#1 ++ mantissa).toNat = 2 ^ 52 + mantissa.toNat := by
  rw [BitVec.toNat_append, ← Nat.shiftLeft_add_eq_or_of_lt mantissa.isLt]
  rfl

theorem unpack_shaped (b : BitVec Format.binary64.numBits) : Shaped (unpack Format.binary64 b) := by
  have he : (unpackExponent b).toNat < 2048 := (unpackExponent b).isLt
  have hm : (unpackMantissa b).toNat < 2 ^ 52 := (unpackMantissa b).isLt
  have hbias : Format.binary64.exponentBias = 1023 := rfl
  unfold unpack
  dsimp only
  rw [hbias]
  split
  · split <;> trivial
  · next htop =>
    have htop : (unpackExponent b).toNat ≠ 2047 := fun h => htop (BitVec.eq_of_toNat_eq h)
    split
    · next hbot =>
      have hbot : (unpackExponent b).toNat = 0 := by rw [hbot]; rfl
      split
      · trivial
      · next hzero =>
        have hpos : (unpackMantissa b).toNat ≠ 0 := fun h => hzero (BitVec.eq_of_toNat_eq h)
        exact ⟨⟨by omega, by omega, by omega, by omega⟩, by omega⟩
    · next hbot =>
      have hbot : (unpackExponent b).toNat ≠ 0 := fun h => hbot (BitVec.eq_of_toNat_eq h)
      have hfull := toNat_implicit (unpackMantissa b)
      exact ⟨⟨by omega, by omega, by omega, by omega⟩, by omega⟩

theorem unpack_packedInfinity (s : Sign) :
    unpack Format.binary64 (packedInfinity Format.binary64 s) = .infinity s := by
  cases s <;> rfl

theorem unpack_normal (mantissa : BitVec 52) (htop : exponent.toNat ≠ 2047)
    (hbot : exponent.toNat ≠ 0) :
    ∃ h, unpack Format.binary64 (packComponents Format.binary64 s exponent mantissa) =
      .finite s (2 ^ 52 + mantissa.toNat) (exponent.toNat - 1075) h := by
  have htop : exponent ≠ -1#11 := fun h => htop (congrArg BitVec.toNat h)
  have hbot : exponent ≠ 0#11 := fun h => hbot (congrArg BitVec.toNat h)
  simp only [unpack, unpackMantissa_packComponents, unpackExponent_packComponents,
    unpackSign_packComponents, Sign.ofBitVec_toBitVec, toNat_implicit]
  rw [if_neg htop, if_neg hbot]
  exact ⟨by omega, rfl⟩

theorem unpack_subnormal (hm : mantissa.toNat ≠ 0) :
    ∃ h, unpack Format.binary64 (packComponents Format.binary64 s 0#11 mantissa) =
      .finite s mantissa.toNat (-1074) h := by
  have hzero : mantissa ≠ 0#52 := fun h => hm (congrArg BitVec.toNat h)
  simp only [unpack, unpackMantissa_packComponents, unpackExponent_packComponents,
    unpackSign_packComponents, Sign.ofBitVec_toBitVec]
  rw [if_neg (by decide), if_pos trivial, dif_neg hzero]
  exact ⟨Nat.pos_of_ne_zero hm, rfl⟩

/-- What an unpacked double is after it was packed. -/
def packed (u : UnpackedFloat) : UnpackedFloat :=
  unpack Format.binary64 (pack Format.binary64 u)

/-- A canonical double survives being packed unless its exponent is too large. -/
theorem packed_finite {h : 0 < m} (hc : Canonical m e) :
    packed (.finite s m e h) = if e ≤ 971 then .finite s m e h else .infinity s := by
  have hleast := hc.least
  have hlt := hc.lt
  have hbias : Format.binary64.exponentBias = 1023 := rfl
  have hbits : Format.binary64.mantissaBits = 53 := rfl
  simp only [packed, pack, hbias, hbits]
  split
  · rw [if_neg (show ¬e ≤ 971 by omega), unpack_packedInfinity]
  · rw [if_pos (show e ≤ 971 by omega)]
    split
    · next hnormal =>
      have hfull : 2 ^ 52 ≤ m := (Nat.le_log2 h.ne').mp (by omega)
      have hexponent : (BitVec.ofNat 11 (e + (1023 : Nat) + (52 : Nat)).toNat).toNat =
          (e + 1075).toNat := by
        rw [BitVec.toNat_ofNat, Nat.mod_eq_of_lt (by omega)]
        omega
      have hmantissa : 2 ^ 52 + (BitVec.ofNat 52 m).toNat = m := by
        rw [BitVec.toNat_ofNat]
        omega
      obtain ⟨hpos, hunpack⟩ := unpack_normal (s := s) (BitVec.ofNat 52 m)
        (hexponent ▸ show (e + 1075).toNat ≠ 2047 by omega)
        (hexponent ▸ show (e + 1075).toNat ≠ 0 by omega)
      rw [hunpack]
      congr 1
      omega
    · next hsubnormal =>
      have hshort : m < 2 ^ 52 := by
        by_contra hge
        have := (Nat.le_log2 h.ne').mpr (not_lt.mp hge)
        have := (Nat.log2_lt h.ne').mpr hlt
        omega
      have hexponent : e = -1074 := by
        by_contra hne
        have := hc.full (by omega)
        omega
      have hmantissa : (BitVec.ofNat 52 m).toNat = m := by
        rw [BitVec.toNat_ofNat, Nat.mod_eq_of_lt hshort]
      have hne : (BitVec.ofNat 52 m).toNat ≠ 0 := by
        rw [hmantissa]
        exact h.ne'
      obtain ⟨hpos, hunpack⟩ := unpack_subnormal (s := s) hne
      rw [hunpack]
      congr 1
      omega

theorem packed_shaped (hu : Shaped u) : packed u = u := by
  match u with
  | .notANumber => rfl
  | .infinity s => exact unpack_packedInfinity s
  | .zero s => exact unpack_packedZero
  | .finite s m e h => rw [packed_finite hu.1, if_pos hu.2]

end

/-! ## Comparing -/

theorem magnitude_pos (h : 0 < m) (e : Int) : 0 < m * (2 : ℝ) ^ e :=
  mul_pos (Nat.cast_pos.mpr h) (zpow_pos two_pos e)

theorem Canonical.magnitude_lt (hc : Canonical m e) : m * (2 : ℝ) ^ e < (2 : ℝ) ^ (e + 53) := by
  have hm : (m : ℝ) < (2 : ℝ) ^ (53 : ℤ) := by exact_mod_cast hc.lt
  calc m * (2 : ℝ) ^ e
      < (2 : ℝ) ^ (53 : ℤ) * (2 : ℝ) ^ e := mul_lt_mul_of_pos_right hm (zpow_pos two_pos e)
    _ = (2 : ℝ) ^ (e + 53) := by rw [← zpow_add₀ two_ne_zero, add_comm]

theorem Canonical.le_magnitude (hc : Canonical m e) (he : -1074 < e) :
    (2 : ℝ) ^ (e + 52) ≤ m * (2 : ℝ) ^ e := by
  have hm : (2 : ℝ) ^ (52 : ℤ) ≤ m := by exact_mod_cast hc.full he
  calc (2 : ℝ) ^ (e + 52)
      = (2 : ℝ) ^ (52 : ℤ) * (2 : ℝ) ^ e := by rw [← zpow_add₀ two_ne_zero, add_comm]
    _ ≤ m * (2 : ℝ) ^ e := mul_le_mul_of_nonneg_right hm (zpow_pos two_pos e).le

/-- A larger exponent makes a larger number, whatever the mantissas are. -/
theorem Canonical.magnitude_lt_magnitude (hc : Canonical m e) (hc' : Canonical m' e')
    (he : e < e') : m * (2 : ℝ) ^ e < m' * (2 : ℝ) ^ e' := by
  have hleast := hc.least
  calc m * (2 : ℝ) ^ e
      < (2 : ℝ) ^ (e + 53) := hc.magnitude_lt
    _ ≤ (2 : ℝ) ^ (e' + 52) := zpow_le_zpow_right₀ one_le_two (by omega)
    _ ≤ m' * (2 : ℝ) ^ e' := hc'.le_magnitude (by omega)

theorem compare_coe (x y : ℝ) : compare (x : EReal) (y : EReal) = compare x y := by
  rw [← cmp_eq_compare, ← cmp_eq_compare]
  exact EReal.coe_strictMono.cmp_map_eq x y

theorem compare_neg_neg (x y : ℝ) : compare (-x) (-y) = (compare x y).swap := by
  rw [← cmp_eq_compare, ← cmp_eq_compare, cmp_swap]
  exact strictMono_id.neg.cmp_map_eq x y

theorem compare_magnitude (m m' : Nat) (e : Int) :
    compare (m * (2 : ℝ) ^ e) (m' * (2 : ℝ) ^ e) = compare m m' := by
  have hmono : StrictMono fun k : Nat => k * (2 : ℝ) ^ e := fun _ _ h =>
    mul_lt_mul_of_pos_right (Nat.cast_lt.mpr h) (zpow_pos two_pos e)
  rw [← cmp_eq_compare, ← cmp_eq_compare]
  exact hmono.cmp_map_eq m m'

theorem Canonical.compare_eq (hc : Canonical m e) (hc' : Canonical m' e') :
    (compare e e').then (compare m m') = compare (m * (2 : ℝ) ^ e) (m' * (2 : ℝ) ^ e') := by
  rcases lt_trichotomy e e' with he | rfl | he
  · rw [compare_lt_iff_lt.mpr he, compare_lt_iff_lt.mpr (hc.magnitude_lt_magnitude hc' he)]
    rfl
  · rw [compare_eq_iff_eq.mpr rfl, compare_magnitude]
    rfl
  · rw [compare_gt_iff_gt.mpr he, compare_gt_iff_gt.mpr (hc'.magnitude_lt_magnitude hc he)]
    rfl

theorem value_finite_pos {h : 0 < m} : 0 < value (.finite .positive m e h) :=
  EReal.coe_pos.mpr (magnitude_pos h e)

theorem value_finite_neg {h : 0 < m} : value (.finite .negative m e h) < 0 :=
  EReal.coe_neg'.mpr (neg_lt_zero.mpr (magnitude_pos h e))

/-- Unpacked doubles are compared as the numbers they stand for. -/
theorem compare_eq (hu : Shaped u) (hv : Shaped v) (hun : u.isNaN = false)
    (hvn : v.isNaN = false) : u.compare v = some (compare (value u) (value v)) := by
  have hlt {x y : EReal} (h : x < y) : some Ordering.lt = some (compare x y) :=
    congrArg some (compare_lt_iff_lt.mpr h).symm
  have hgt {x y : EReal} (h : y < x) : some Ordering.gt = some (compare x y) :=
    congrArg some (compare_gt_iff_gt.mpr h).symm
  have heq (x : EReal) : some Ordering.eq = some (compare x x) :=
    congrArg some (compare_eq_iff_eq.mpr rfl).symm
  match u, v with
  | .notANumber, _ => cases hun
  | _, .notANumber => cases hvn
  | .infinity .positive, .infinity .positive => exact heq _
  | .infinity .positive, .infinity .negative => exact hgt bot_lt_top
  | .infinity .positive, .zero _ => exact hgt EReal.zero_lt_top
  | .infinity .positive, .finite .positive .. => exact hgt (EReal.coe_lt_top _)
  | .infinity .positive, .finite .negative .. => exact hgt (EReal.coe_lt_top _)
  | .infinity .negative, .infinity .positive => exact hlt bot_lt_top
  | .infinity .negative, .infinity .negative => exact heq _
  | .infinity .negative, .zero _ => exact hlt EReal.bot_lt_zero
  | .infinity .negative, .finite .positive .. => exact hlt (EReal.bot_lt_coe _)
  | .infinity .negative, .finite .negative .. => exact hlt (EReal.bot_lt_coe _)
  | .zero _, .infinity .positive => exact hlt EReal.zero_lt_top
  | .zero _, .infinity .negative => exact hgt EReal.bot_lt_zero
  | .zero _, .zero _ => exact heq _
  | .zero _, .finite .positive .. => exact hlt value_finite_pos
  | .zero _, .finite .negative .. => exact hgt value_finite_neg
  | .finite .positive .., .infinity .positive => exact hlt (EReal.coe_lt_top _)
  | .finite .negative .., .infinity .positive => exact hlt (EReal.coe_lt_top _)
  | .finite .positive .., .infinity .negative => exact hgt (EReal.bot_lt_coe _)
  | .finite .negative .., .infinity .negative => exact hgt (EReal.bot_lt_coe _)
  | .finite .positive .., .zero _ => exact hgt value_finite_pos
  | .finite .negative .., .zero _ => exact hlt value_finite_neg
  | .finite .positive .., .finite .negative .. =>
    exact hgt (value_finite_neg.trans value_finite_pos)
  | .finite .negative .., .finite .positive .. =>
    exact hlt (value_finite_neg.trans value_finite_pos)
  | .finite .positive .., .finite .positive .. =>
    exact congrArg some ((hu.1.compare_eq hv.1).trans (compare_coe _ _).symm)
  | .finite .negative .., .finite .negative .. =>
    refine congrArg some ?_
    rw [hu.1.compare_eq hv.1, ← compare_neg_neg, ← compare_coe]
    rfl

/-! ## Reading -/

/-- The number that a double stands for. -/
noncomputable def reading (x : Float) : EReal :=
  value x.toModel.unpack

theorem reading_pack (u : UnpackedFloat) : reading (.ofModel (.pack u)) = value (packed u) :=
  rfl

theorem isNaN_pack (u : UnpackedFloat) : (Float.ofModel (.pack u)).isNaN = (packed u).isNaN :=
  rfl

variable {x y z : Float}

theorem compare_toModel (hx : x.isNaN = false) (hy : y.isNaN = false) :
    x.toModel.compare y.toModel = some (compare (reading x) (reading y)) :=
  compare_eq (unpack_shaped _) (unpack_shaped _) hx hy

theorem lt_iff (hx : x.isNaN = false) (hy : y.isNaN = false) :
    x < y ↔ reading x < reading y := by
  have hdef : x < y ↔ (x.toModel.compare y.toModel == some .lt) = true :=
    (decide_eq_true_iff (p := x.toModel < y.toModel)).trans Iff.rfl
  rw [hdef, compare_toModel hx hy, beq_iff_eq, Option.some_inj, compare_lt_iff_lt]

theorem le_iff (hx : x.isNaN = false) (hy : y.isNaN = false) :
    x ≤ y ↔ reading x ≤ reading y := by
  have hdef : x ≤ y ↔ (x.toModel.compare y.toModel).any (·.isLE) = true :=
    (decide_eq_true_iff (p := x.toModel ≤ y.toModel)).trans Iff.rfl
  rw [hdef, compare_toModel hx hy, Option.any_some]
  exact Ordering.ne_gt_iff_isLE.symm.trans compare_le_iff_le

/-- Only numbers are compared. -/
theorem numbers_of_le (h : x ≤ y) : x.isNaN = false ∧ y.isNaN = false := by
  have hle : (x.toModel.unpack.compare y.toModel.unpack).any (·.isLE) = true :=
    (decide_eq_true_iff (p := x.toModel ≤ y.toModel)).mp h
  show x.toModel.unpack.isNaN = false ∧ y.toModel.unpack.isNaN = false
  generalize x.toModel.unpack = u at hle ⊢
  generalize y.toModel.unpack = v at hle ⊢
  cases u <;> cases v <;> first | exact ⟨rfl, rfl⟩ | cases hle

theorem numbers_of_lt (h : x < y) : x.isNaN = false ∧ y.isNaN = false := by
  have hlt : (x.toModel.unpack.compare y.toModel.unpack == some .lt) = true :=
    (decide_eq_true_iff (p := x.toModel < y.toModel)).mp h
  show x.toModel.unpack.isNaN = false ∧ y.toModel.unpack.isNaN = false
  generalize x.toModel.unpack = u at hlt ⊢
  generalize y.toModel.unpack = v at hlt ⊢
  cases u <;> cases v <;> first | exact ⟨rfl, rfl⟩ | cases hlt

theorem reading_le (h : x ≤ y) : reading x ≤ reading y :=
  (le_iff (numbers_of_le h).1 (numbers_of_le h).2).mp h

theorem reading_lt (h : x < y) : reading x < reading y :=
  (lt_iff (numbers_of_lt h).1 (numbers_of_lt h).2).mp h

theorem le_self (hx : x.isNaN = false) : x ≤ x :=
  (le_iff hx hx).mpr (le_refl _)

theorem le_of_not_lt (hx : x.isNaN = false) (hy : y.isNaN = false) (h : ¬x < y) : y ≤ x := by
  rw [lt_iff hx hy] at h
  exact (le_iff hy hx).mpr (not_lt.mp h)

protected theorem le_of_lt (h : x < y) : x ≤ y :=
  (le_iff (numbers_of_lt h).1 (numbers_of_lt h).2).mpr (reading_lt h).le

protected theorem le_trans (h : x ≤ y) (h' : y ≤ z) : x ≤ z :=
  (le_iff (numbers_of_le h).1 (numbers_of_le h').2).mpr ((reading_le h).trans (reading_le h'))

protected theorem lt_of_lt_of_le (h : x < y) (h' : y ≤ z) : x < z :=
  (lt_iff (numbers_of_lt h).1 (numbers_of_le h').2).mpr ((reading_lt h).trans_le (reading_le h'))

theorem reading_of_isNaN (hx : x.isNaN = true) : reading x = 0 := by
  have hnan : x.toModel.unpack.isNaN = true := hx
  unfold reading
  generalize x.toModel.unpack = u at hnan ⊢
  cases u <;> first | rfl | cases hnan

theorem reading_zero : reading 0 = 0 :=
  rfl

theorem reading_nonneg (h : 0 ≤ x) : 0 ≤ reading x :=
  reading_zero ▸ reading_le h

theorem nonneg_iff (hx : x.isNaN = false) : 0 ≤ x ↔ 0 ≤ reading x := by
  rw [le_iff (by decide +kernel) hx, reading_zero]

/-- Doubles that are equally large are equal, up to the sign of a zero. -/
theorem beq_of_le (h : x ≤ y) (h' : y ≤ x) : x == y := by
  have hsame := (reading_le h).antisymm (reading_le h')
  show (x.toModel.compare y.toModel == some .eq) = true
  rw [compare_toModel (numbers_of_le h).1 (numbers_of_le h).2, hsame, compare_eq_iff_eq.mpr rfl]
  rfl

end Ridership.Double
