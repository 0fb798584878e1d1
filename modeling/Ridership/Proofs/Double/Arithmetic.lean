import Ridership.Proofs.Double.Rounding

/-!
# Arithmetic with doubles

Products and square roots of doubles that are not negative are the exact ones, rounded to the
nearest double. So they keep the order of what they are taken of.
-/

namespace Ridership.Double

open Float.Model (Format UnpackedFloat)
open Float.Model.UnpackedFloat

variable {m m' : Nat} {e e' : Int}

theorem records_exact (m : Nat) (e : Int) :
    Records (.ofMantissaAndAccuracy m .exact) (m * 2 ^ e / 2 ^ e) := by
  rw [mul_div_cancel_right₀ _ (zpow_pos two_pos e).ne']
  simp [Records, ExtendedMantissa.ofMantissaAndAccuracy, two_mul]

theorem magnitude_mul (m m' : Nat) (e e' : Int) :
    (m * 2 ^ e * (m' * 2 ^ e') : ℝ) = ((m * m' : ℕ) : ℝ) * 2 ^ (e + e') := by
  rw [zpow_add₀ two_ne_zero]
  push_cast
  ring

theorem magnitude_shiftLeft (m k : Nat) (e : Int) :
    ((m <<< k : ℕ) : ℝ) * 2 ^ e = m * 2 ^ (e + k) := by
  rw [Nat.shiftLeft_eq, zpow_add₀ two_ne_zero, zpow_natCast]
  push_cast
  ring

/-! ## Products -/

theorem mul_finite (h : 0 < m) (h' : 0 < m')
    (he : e + e' ≤ lastPlace (m * 2 ^ e * (m' * 2 ^ e'))) :
    (packed (mul Format.binary64 (.finite .positive m e h) (.finite .positive m' e' h'))).isNaN =
        false ∧
      value (packed (mul Format.binary64 (.finite .positive m e h) (.finite .positive m' e' h'))) =
        nearest ((m * 2 ^ e * (m' * 2 ^ e') : ℝ) : EReal) := by
  rw [magnitude_mul] at he ⊢
  exact round_recorded (records_exact _ _) (Nat.mul_pos h h') he

/-- The product of doubles has no bits below those of its factors. -/
theorem Canonical.add_le_lastPlace (hc : Canonical m e) (hc' : Canonical m' e') :
    e + e' ≤ lastPlace (m * 2 ^ e * (m' * 2 ^ e')) := by
  have hpos := Nat.mul_pos hc.pos hc'.pos
  rw [lastPlace, magnitude_mul, log_eq (records_exact _ _) hpos]
  by_cases hfull : 2 ^ 52 ≤ m * m'
  · have := (Nat.le_log2 hpos.ne').mpr hfull
    omega
  · have hm : ¬2 ^ 52 ≤ m := fun h => hfull (h.trans (Nat.le_mul_of_pos_right m hc'.pos))
    have hm' : ¬2 ^ 52 ≤ m' := fun h => hfull (h.trans (Nat.le_mul_of_pos_left m' hc.pos))
    have he : ¬-1074 < e := fun h => hm (hc.full h)
    have he' : ¬-1074 < e' := fun h => hm' (hc'.full h)
    omega

variable {x y z : Float}

/-- The doubles that are neither negative nor NaN. -/
inductive Unsigned : UnpackedFloat → Prop
  | infinity : Unsigned (.infinity .positive)
  | zero (s) : Unsigned (.zero s)
  | finite (m e h) : Canonical m e → Unsigned (.finite .positive m e h)

theorem unsigned_of_nonneg (hx : x.isNaN = false) (h : 0 ≤ reading x) :
    Unsigned x.toModel.unpack := by
  have hshaped : Shaped x.toModel.unpack := unpack_shaped _
  have hnan : x.toModel.unpack.isNaN = false := hx
  unfold reading at h
  generalize x.toModel.unpack = u at hshaped hnan h
  match u with
  | .notANumber => cases hnan
  | .infinity .positive => exact .infinity
  | .infinity .negative => exact absurd h (not_le.mpr EReal.bot_lt_zero)
  | .zero s => exact .zero s
  | .finite .positive m e hm => exact .finite m e hm hshaped.1
  | .finite .negative m e hm => exact absurd h (not_le.mpr value_finite_neg)

theorem Unsigned.nonneg {u : UnpackedFloat} (h : Unsigned u) : u.isNaN = false ∧ 0 ≤ value u := by
  cases h with
  | infinity => exact ⟨rfl, le_top⟩
  | zero s => exact ⟨rfl, le_refl _⟩
  | finite m e h hc => exact ⟨rfl, value_finite_pos.le⟩

theorem packed_notANumber : (packed .notANumber).isNaN = true :=
  congrArg isNaN unpack_packedNaN

/-- The product of an infinity with zero is no number; every other product is the exact one,
rounded. -/
theorem Unsigned.mul_cases {u v : UnpackedFloat} (hu : Unsigned u) (hv : Unsigned v) :
    ((packed (mul Format.binary64 u v)).isNaN = true ∧ (value u = ⊤ ∨ value v = ⊤)) ∨
      (packed (mul Format.binary64 u v)).isNaN = false ∧
        value (packed (mul Format.binary64 u v)) = nearest (value u * value v) := by
  have htop {w : UnpackedFloat} (hw : w = .infinity .positive) (h : value u * value v = ⊤) :
      (packed w).isNaN = false ∧ value (packed w) = nearest (value u * value v) := by
    rw [hw, h, nearest_top]
    exact ⟨congrArg isNaN (unpack_packedInfinity _), congrArg value (unpack_packedInfinity _)⟩
  have hzero {w : UnpackedFloat} {s : Sign} (hw : w = .zero s) (h : value u * value v = 0) :
      (packed w).isNaN = false ∧ value (packed w) = nearest (value u * value v) := by
    rw [hw, h, nearest_zero]
    exact ⟨congrArg isNaN unpack_packedZero, congrArg value unpack_packedZero⟩
  cases hu with
  | infinity =>
    cases hv with
    | infinity => exact .inr (htop rfl EReal.top_mul_top)
    | zero s => exact .inl ⟨packed_notANumber, .inl rfl⟩
    | finite m e h hc => exact .inr (htop rfl (EReal.top_mul_coe_of_pos (magnitude_pos h e)))
  | zero s =>
    cases hv with
    | infinity => exact .inl ⟨packed_notANumber, .inr rfl⟩
    | zero s' => exact .inr (hzero rfl (zero_mul _))
    | finite m e h hc => exact .inr (hzero rfl (zero_mul _))
  | finite m e h hc =>
    cases hv with
    | infinity => exact .inr (htop rfl (EReal.coe_mul_top_of_pos (magnitude_pos h e)))
    | zero s => exact .inr (hzero rfl (mul_zero _))
    | finite m' e' h' hc' => exact .inr (mul_finite h h' (hc.add_le_lastPlace hc'))

/-- The product of doubles that are not negative is the exact one, rounded. -/
theorem reading_mul (hx : x.isNaN = false) (hy : y.isNaN = false) (hxy : (x * y).isNaN = false)
    (hx0 : 0 ≤ reading x) (hy0 : 0 ≤ reading y) :
    reading (x * y) = nearest (reading x * reading y) := by
  rcases (unsigned_of_nonneg hx hx0).mul_cases (unsigned_of_nonneg hy hy0) with
    ⟨hnan, -⟩ | ⟨-, hproduct⟩
  · exact absurd (hxy.symm.trans hnan) Bool.false_ne_true
  · exact hproduct

/-- Only an infinity has a product with zero that is no number. -/
theorem mul_number (hx : x.isNaN = false) (hy : y.isNaN = false) (hx0 : 0 ≤ reading x)
    (hy0 : 0 ≤ reading y) (hxtop : reading x ≠ ⊤) (hytop : reading y ≠ ⊤) :
    (x * y).isNaN = false := by
  rcases (unsigned_of_nonneg hx hx0).mul_cases (unsigned_of_nonneg hy hy0) with
    ⟨-, htop | htop⟩ | ⟨hnumber, -⟩
  · exact absurd htop hxtop
  · exact absurd htop hytop
  · exact hnumber

/-- Products with a double that is not negative keep the order. -/
theorem mul_le_mul_right (hx : 0 ≤ x) (hz : 0 ≤ z) (hxz : (x * z).isNaN = false)
    (hyz : (y * z).isNaN = false) (h : x ≤ y) : x * z ≤ y * z := by
  have hx0 := reading_nonneg hx
  have hz0 := reading_nonneg hz
  obtain ⟨hxn, hyn⟩ := numbers_of_le h
  have hzn := (numbers_of_le hz).2
  rw [le_iff hxz hyz, reading_mul hxn hzn hxz hx0 hz0,
    reading_mul hyn hzn hyz (hx0.trans (reading_le h)) hz0]
  exact nearest_mono (mul_nonneg hx0 hz0) (mul_le_mul_of_nonneg_right (reading_le h) hz0)

/-! ## Roots -/

theorem log_sqrt {x : ℝ} (hx : 0 < x) : Int.log 2 (√x) = Int.log 2 x / 2 := by
  have hroot : 0 < √x := Real.sqrt_pos.mpr hx
  have hsquare (k : Int) : ((2 : ℝ) ^ k) ^ 2 = 2 ^ (2 * k) := by
    rw [← zpow_natCast, ← zpow_mul, mul_comm k]
    rfl
  have hlow : (2 : ℝ) ^ (Int.log 2 x / 2) ≤ √x := by
    rw [Real.le_sqrt (zpow_pos two_pos _).le hx.le, hsquare]
    calc (2 : ℝ) ^ (2 * (Int.log 2 x / 2))
        ≤ 2 ^ Int.log 2 x := zpow_le_zpow_right₀ one_le_two (by omega)
      _ ≤ x := Int.zpow_log_le_self one_lt_two hx
  have hhigh : √x < (2 : ℝ) ^ (Int.log 2 x / 2 + 1) := by
    rw [Real.sqrt_lt' (zpow_pos two_pos _), hsquare]
    calc x
        < 2 ^ (Int.log 2 x + 1) := Int.lt_zpow_succ_log_self one_lt_two x
      _ ≤ 2 ^ (2 * (Int.log 2 x / 2 + 1)) := zpow_le_zpow_right₀ one_le_two (by omega)
  have hge := (Int.zpow_le_iff_le_log one_lt_two hroot).mp hlow
  have hlt := (Int.lt_zpow_iff_log_lt one_lt_two hroot).mp hhigh
  omega

/-- What an integer square root leaves over says on which side of the half the root lies. -/
theorem records_sqrt (n : Nat) :
    Records (.ofMantissaAndAccuracy n.sqrt (if n - n.sqrt * n.sqrt = 0 then .exact
      else .inexact (if n - n.sqrt * n.sqrt ≤ n.sqrt then .lt else .gt))) (√(n : ℝ)) := by
  have hle := Nat.sqrt_le n
  have hlt := Nat.lt_succ_sqrt n
  generalize n.sqrt = r at hle hlt ⊢
  have hr : (0 : ℝ) ≤ r := Nat.cast_nonneg r
  split_ifs with hexact hsmall
  · have hn : (n : ℝ) = r ^ 2 := by
      rw [sq]
      exact_mod_cast (show n = r * r by omega)
    rw [hn, Real.sqrt_sq hr]
    simp [Records, ExtendedMantissa.ofMantissaAndAccuracy, two_mul]
  · have hlow : (r : ℝ) < √n := by
      rw [Real.lt_sqrt hr, sq]
      exact_mod_cast (show r * r < n by omega)
    have hn : (n : ℝ) ≤ r * r + r := by exact_mod_cast (show n ≤ r * r + r by omega)
    have hhigh : √n < (r : ℝ) + 1 / 2 := by
      rw [Real.sqrt_lt' (by linarith)]
      linarith
    simp only [Records, ExtendedMantissa.ofMantissaAndAccuracy]
    constructor <;> simp <;> linarith
  · have hn : (r : ℝ) * r + r + 1 ≤ n := by exact_mod_cast (show r * r + r + 1 ≤ n by omega)
    have hlow : (r : ℝ) + 1 / 2 < √n := by
      rw [Real.lt_sqrt (by linarith)]
      linarith
    have hn' : (n : ℝ) < (r + 1) ^ 2 := by
      rw [sq]
      exact_mod_cast hlt
    have hhigh : √n < (r : ℝ) + 1 := by
      rw [Real.sqrt_lt' (by linarith)]
      exact hn'
    simp only [Records, ExtendedMantissa.ofMantissaAndAccuracy]
    constructor <;> simp <;> linarith

theorem sqrtCore_records {m : Nat} (hm : 0 < m) (e : Int) :
    ∃ r t accuracy, sqrtCore Format.binary64 m e = (r, t, accuracy) ∧ 0 < r ∧
      t ≤ lastPlace (√(m * 2 ^ e)) ∧
      Records (.ofMantissaAndAccuracy r accuracy) (√(m * 2 ^ e) / 2 ^ t) := by
  have hlog : Int.log 2 (√(m * 2 ^ e)) = (m.log2 + e) / 2 := by
    rw [log_sqrt (magnitude_pos hm e), log_eq (records_exact m e) hm]
  have hbits : (Format.binary64.mantissaBits : Int) = 53 := rfl
  have hleast : Format.binary64.minExponent = -1074 := rfl
  have htarget : Format.binary64.targetExponent ((Float.Model.totalExponent m e + 1).ediv 2) =
      lastPlace (√(m * 2 ^ e)) := by
    have hhalf : (Float.Model.totalExponent m e + 1).ediv 2 = (m.log2 + e) / 2 + 1 := by
      show (m.log2 + 1 + e + 1) / 2 = (m.log2 + e) / 2 + 1
      omega
    rw [Format.targetExponent, lastPlace, hlog, hhalf, hbits, hleast]
    congr 1
    omega
  have ht : min (e.ediv 2) (lastPlace (√(m * 2 ^ e))) * 2 ≤ e := by
    have : e.ediv 2 = e / 2 := rfl
    omega
  simp only [sqrtCore, htarget]
  generalize htdef : min (e.ediv 2) (lastPlace (√(m * 2 ^ e))) = t at ht ⊢
  have hshift : ((m <<< (e - 2 * t).toNat : ℕ) : ℝ) = m * 2 ^ (e - 2 * t) := by
    have hunit := magnitude_shiftLeft m (e - 2 * t).toNat 0
    rwa [zpow_zero, mul_one, zero_add, Int.toNat_of_nonneg (by omega)] at hunit
  have hscale : √(m * 2 ^ e) / 2 ^ t = √((m <<< (e - 2 * t).toNat : ℕ) : ℝ) := by
    have hsplit : (m * 2 ^ e : ℝ) = m * 2 ^ (e - 2 * t) * (2 ^ t) ^ 2 := by
      rw [mul_assoc, ← zpow_natCast, ← zpow_mul, ← zpow_add₀ two_ne_zero]
      congr 2
      push_cast
      omega
    have hpos : (0 : ℝ) < 2 ^ t := zpow_pos two_pos t
    rw [hshift, hsplit, Real.sqrt_mul (magnitude_pos hm _).le, Real.sqrt_sq hpos.le,
      mul_div_cancel_right₀ _ hpos.ne']
  have hroot : 0 < (m <<< (e - 2 * t).toNat).sqrt := by
    rw [Nat.sqrt_pos]
    exact Nat.shiftLeft_pos_iff.mpr hm
  refine ⟨_, _, _, rfl, hroot, htdef ▸ min_le_right _ _, ?_⟩
  rw [hscale]
  exact records_sqrt _

/-- The square root in the numbers that doubles stand for. -/
noncomputable def root (v : EReal) : EReal :=
  if v = ⊤ then ⊤ else (√v.toReal : ℝ)

theorem root_nonneg (v : EReal) : 0 ≤ root v := by
  unfold root
  split
  · exact le_top
  · exact EReal.coe_nonneg.mpr (Real.sqrt_nonneg _)

theorem root_mono {v w : EReal} (hv : 0 ≤ v) (h : v ≤ w) : root v ≤ root w := by
  unfold root
  split_ifs with hvtop hwtop hwtop
  · exact le_refl _
  · exact absurd (top_le_iff.mp (hvtop ▸ h)) hwtop
  · exact le_top
  · have hreal : v.toReal ≤ w.toReal :=
      EReal.toReal_le_toReal h (ne_bot_of_le_ne_bot EReal.zero_ne_bot hv) hwtop
    exact EReal.coe_le_coe_iff.mpr (Real.sqrt_le_sqrt hreal)

/-- The square root of a double that is not negative is the exact one, rounded. -/
theorem reading_sqrt (hx : x.isNaN = false) (hx0 : 0 ≤ reading x) :
    x.sqrt.isNaN = false ∧ reading x.sqrt = nearest (root (reading x)) := by
  have hux := unsigned_of_nonneg hx hx0
  show (packed (sqrt Format.binary64 x.toModel.unpack)).isNaN = false ∧
    value (packed (sqrt Format.binary64 x.toModel.unpack)) =
      nearest (root (value x.toModel.unpack))
  generalize x.toModel.unpack = u at hux ⊢
  cases hux with
  | infinity =>
    have hroot : root ⊤ = ⊤ := if_pos rfl
    refine ⟨congrArg isNaN (unpack_packedInfinity _), ?_⟩
    rw [show value (.infinity .positive) = ⊤ from rfl, hroot, nearest_top]
    exact congrArg value (unpack_packedInfinity _)
  | zero s =>
    have hroot : root 0 = 0 := by simp [root]
    refine ⟨congrArg isNaN unpack_packedZero, ?_⟩
    rw [show value (.zero s) = 0 from rfl, hroot, nearest_zero]
    exact congrArg value unpack_packedZero
  | finite m e h hc =>
    obtain ⟨r, t, accuracy, hcore, hr, ht, hrecords⟩ := sqrtCore_records h e
    have hroot : root (value (.finite .positive m e h)) = ((√(m * 2 ^ e) : ℝ) : EReal) :=
      if_neg (EReal.coe_ne_top _)
    have hsqrt : sqrt Format.binary64 (.finite .positive m e h) =
        roundWithAccuracy Format.binary64 .positive r t accuracy := by
      simp only [sqrt, hcore]
    rw [hroot, hsqrt]
    exact round_recorded hrecords hr ht

/-- Roots keep the order. -/
theorem sqrt_le_sqrt (hx : 0 ≤ x) (h : x ≤ y) : x.sqrt ≤ y.sqrt := by
  have hx0 := reading_nonneg hx
  obtain ⟨hxn, hyn⟩ := numbers_of_le h
  obtain ⟨hxs, hxr⟩ := reading_sqrt hxn hx0
  obtain ⟨hys, hyr⟩ := reading_sqrt hyn (hx0.trans (reading_le h))
  rw [le_iff hxs hys, hxr, hyr]
  exact nearest_mono (root_nonneg _) (root_mono hx0 (reading_le h))

theorem unsigned_of_sqrt {u : UnpackedFloat} (hu : Shaped u)
    (h : (packed (sqrt Format.binary64 u)).isNaN = false) : Unsigned u := by
  match u with
  | .notANumber => exact absurd (h.symm.trans packed_notANumber) Bool.false_ne_true
  | .infinity .positive => exact .infinity
  | .infinity .negative => exact absurd (h.symm.trans packed_notANumber) Bool.false_ne_true
  | .zero s => exact .zero s
  | .finite .positive m e hm => exact .finite m e hm hu.1
  | .finite .negative m e hm => exact absurd (h.symm.trans packed_notANumber) Bool.false_ne_true

/-- Only doubles that are not negative have a root. -/
theorem sqrt_nonneg_iff : 0 ≤ x.sqrt ↔ 0 ≤ x := by
  constructor
  · intro h
    obtain ⟨hx, hx0⟩ := (unsigned_of_sqrt (unpack_shaped _) (numbers_of_le h).2).nonneg
    exact (nonneg_iff hx).mpr hx0
  · intro hx
    obtain ⟨hxs, hxr⟩ := reading_sqrt (numbers_of_le hx).2 (reading_nonneg hx)
    rw [nonneg_iff hxs, hxr, ← nearest_zero]
    exact nearest_mono (le_refl _) (root_nonneg _)

end Ridership.Double
