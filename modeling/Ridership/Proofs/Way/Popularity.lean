import Ridership.Proofs.Double.Integers
import Ridership.Way.Table

/-!
# The popularity that a value stands for

The popularity of a number is the number itself, cut to what 32 bits can hold and rounded down.
A number is read as a double first; this changes integers of more than 53 bits only, and those are
cut anyway. What is not a number has no popularity.
-/

namespace Ridership

/-- The number that a number of a document is: an integer, or what its double stands for. -/
noncomputable def Json.Number.exact : Json.Number → EReal
  | .integer i => ((i : ℝ) : EReal)
  | .real x => Double.reading x

namespace Way.Table

open Ridership.Json (Number Value)
open Ridership.Double (reading nearest)

variable {x : Float} {v w : EReal} {n : Nat}

/-- A number cut to what a counter can hold. -/
noncomputable def clamp (v : EReal) : EReal :=
  max 0 (min v ((4294967295 : ℝ) : EReal))

/-- A natural number is what a number is rounded down to. -/
def IsFloor (n : Nat) (v : EReal) : Prop :=
  ((n : ℝ) : EReal) ≤ v ∧ v < ((n + 1 : ℝ) : EReal)

theorem clamp_of_nonpos (h : v ≤ 0) : clamp v = 0 :=
  max_eq_left ((min_le_left _ _).trans h)

theorem clamp_of_large (h : ((4294967295 : ℝ) : EReal) ≤ v) :
    clamp v = ((4294967295 : ℝ) : EReal) := by
  rw [clamp, min_eq_right h]
  exact max_eq_right (EReal.coe_nonneg.mpr (by norm_num))

theorem clamp_of_between (h : 0 ≤ v) (h' : v ≤ ((4294967295 : ℝ) : EReal)) : clamp v = v := by
  rw [clamp, min_eq_left h', max_eq_right h]

theorem isFloor_zero : IsFloor 0 0 := by
  refine ⟨by simp, ?_⟩
  exact EReal.coe_lt_coe_iff.mpr (by norm_num)

/-! ## Doubles -/

/-- The popularity that a double stands for. -/
def popularityOfDouble (x : Float) : UInt32 :=
  if 0 < x then (if 4294967295 < x then 4294967295 else x).toUInt32 else 0

theorem popularityOf_number (n : Number) :
    popularityOf (.number n) = popularityOfDouble n.toFloat :=
  rfl

theorem reading_largest : (4294967295 : Float).isNaN = false ∧
    reading 4294967295 = ((4294967295 : ℝ) : EReal) := by
  obtain ⟨hnumber, hreading⟩ := Double.reading_ofNat 4294967295
  refine ⟨hnumber, hreading.trans ?_⟩
  rw [Double.nearest_natCast (by norm_num)]
  norm_num

theorem reading_nonpos_of_not_pos (h : ¬0 < x) : reading x ≤ 0 := by
  by_cases hx : x.isNaN = true
  · exact (Double.reading_of_isNaN hx).le
  · have hle := Double.le_of_not_lt (by decide +kernel) (Bool.eq_false_iff.mpr hx) h
    exact Double.reading_zero ▸ Double.reading_le hle

theorem isFloor_popularityOfDouble (x : Float) :
    IsFloor (popularityOfDouble x).toNat (clamp (reading x)) := by
  obtain ⟨hnumber, hlargest⟩ := reading_largest
  unfold popularityOfDouble
  split
  · next hpos =>
    have hx0 := Double.reading_nonneg (Double.le_of_lt hpos)
    split
    · next hlarge =>
      have hcut : (4294967295 : Float).toUInt32.toNat = 4294967295 := by decide +kernel
      rw [clamp_of_large (hlargest ▸ (Double.reading_lt hlarge).le), hcut]
      exact ⟨EReal.coe_le_coe_iff.mpr (by norm_num), EReal.coe_lt_coe_iff.mpr (by norm_num)⟩
    · next hsmall =>
      have hle := Double.reading_le
        (Double.le_of_not_lt hnumber (Double.numbers_of_lt hpos).2 hsmall)
      rw [hlargest] at hle
      lift reading x to ℝ using ⟨ne_top_of_le_ne_top (EReal.coe_ne_top _) hle,
        ne_bot_of_le_ne_bot EReal.zero_ne_bot hx0⟩ with r hr
      have hr0 := EReal.coe_nonneg.mp hx0
      have hcount : x.toUInt32.toNat = ⌊r⌋₊ := by
        rw [Double.toNat_toUInt32 hr0 hr.symm]
        refine Nat.min_eq_left (Nat.le_sub_one_of_lt ((Nat.floor_lt hr0).mpr ?_))
        have hsize : (UInt32.size : ℝ) = 4294967296 := by norm_num [UInt32.size]
        have := EReal.coe_le_coe_iff.mp hle
        linarith
      rw [clamp_of_between hx0 hle, hcount]
      exact ⟨EReal.coe_le_coe_iff.mpr (Nat.floor_le hr0),
        EReal.coe_lt_coe_iff.mpr (Nat.lt_floor_add_one r)⟩
  · next hneg =>
    rw [clamp_of_nonpos (reading_nonpos_of_not_pos hneg)]
    exact isFloor_zero

/-! ## Integers -/

theorem reading_ofInt_nonpos {i : Int} (h : i ≤ 0) : reading (Float.ofInt i) ≤ 0 := by
  match i with
  | .ofNat n =>
    have hzero : n = 0 := by
      have : (n : Int) ≤ 0 := h
      omega
    rw [hzero]
    exact Double.reading_zero.le
  | .negSucc n =>
    show reading (-Float.ofNat (n + 1)) ≤ 0
    rw [Double.reading_neg, (Double.reading_ofNat (n + 1)).2, EReal.neg_le_zero]
    exact Double.nearest_nonneg (EReal.coe_nonneg.mpr (Nat.cast_nonneg _))

/-- An integer is changed as a double only beyond what a counter can hold. -/
theorem clamp_reading_ofInt (i : Int) :
    clamp (reading (Float.ofInt i)) = clamp ((i : ℝ) : EReal) := by
  rcases lt_or_ge 0 i with hpos | hneg
  · obtain ⟨n, rfl⟩ := Int.eq_ofNat_of_zero_le hpos.le
    have hreading : reading (Float.ofInt n) = nearest ((n : ℝ) : EReal) :=
      (Double.reading_ofNat n).2
    rw [hreading, Int.cast_natCast]
    by_cases hn : n < 2 ^ 53
    · rw [Double.nearest_natCast hn]
    · -- A longer integer stays beyond the largest one that is not changed.
      have hlong : ((2 ^ 53 - 1 : ℕ) : ℝ) ≤ n := Nat.cast_le.mpr (by omega)
      have hlarge : ((4294967295 : ℝ) : EReal) ≤ (((2 ^ 53 - 1 : ℕ) : ℝ) : EReal) :=
        EReal.coe_le_coe_iff.mpr (by norm_num)
      have hmono : (((2 ^ 53 - 1 : ℕ) : ℝ) : EReal) ≤ nearest ((n : ℝ) : EReal) := by
        rw [← Double.nearest_natCast (show 2 ^ 53 - 1 < 2 ^ 53 by norm_num)]
        exact Double.nearest_mono (EReal.coe_nonneg.mpr (Nat.cast_nonneg _))
          (EReal.coe_le_coe_iff.mpr hlong)
      rw [clamp_of_large (hlarge.trans hmono),
        clamp_of_large (hlarge.trans (EReal.coe_le_coe_iff.mpr hlong))]
  · have hcast : ((i : ℝ) : EReal) ≤ 0 := EReal.coe_nonpos.mpr (Int.cast_nonpos.mpr hneg)
    rw [clamp_of_nonpos (reading_ofInt_nonpos hneg), clamp_of_nonpos hcast]

/-- The popularity of a number is the number, cut and rounded down. -/
theorem isFloor_popularityOf (n : Number) :
    IsFloor (popularityOf (.number n)).toNat (clamp n.exact) := by
  rw [popularityOf_number]
  cases n with
  | integer i =>
    have hsame : clamp (Number.integer i).exact = clamp (reading (Float.ofInt i)) :=
      (clamp_reading_ofInt i).symm
    rw [hsame]
    exact isFloor_popularityOfDouble _
  | real x => exact isFloor_popularityOfDouble x

end Way.Table

end Ridership
