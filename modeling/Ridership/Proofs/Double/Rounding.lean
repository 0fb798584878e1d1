import Ridership.Proofs.Double.Reading

/-!
# Rounding to doubles

A positive number keeps 53 bits when it is rounded to a double, or fewer next to zero, and the last
one is chosen so that the double is as near as possible, and even of two that are as near. The
rounding is done on a mantissa with two bits that stand for what was shifted out behind it; it never
turns a larger number into a smaller one.
-/

namespace Ridership.Double

open Float.Model (Format UnpackedFloat totalExponent)
open Float.Model.UnpackedFloat

variable {x y : ℝ} {em : ExtendedMantissa} {m n : Nat} {e : Int} {accuracy : Accuracy}

/-! ## Rounding to a natural number -/

/-- The nearest natural number, the even one of two that are as near. -/
noncomputable def halfEven (x : ℝ) : Nat :=
  if x - ⌊x⌋₊ < ⌊x⌋₊ + 1 - x then ⌊x⌋₊
  else if ⌊x⌋₊ + 1 - x < x - ⌊x⌋₊ then ⌊x⌋₊ + 1
  else ⌊x⌋₊ + ⌊x⌋₊ % 2

theorem halfEven_natCast (n : Nat) : halfEven n = n := by
  simp [halfEven]

theorem floor_le_halfEven (x : ℝ) : ⌊x⌋₊ ≤ halfEven x := by
  unfold halfEven
  split_ifs <;> omega

theorem halfEven_le_succ (x : ℝ) : halfEven x ≤ ⌊x⌋₊ + 1 := by
  unfold halfEven
  split_ifs <;> omega

theorem halfEven_mono (h : x ≤ y) : halfEven x ≤ halfEven y := by
  rcases (Nat.floor_mono h).lt_or_eq with hlt | heq
  · calc halfEven x
        ≤ ⌊x⌋₊ + 1 := halfEven_le_succ x
      _ ≤ ⌊y⌋₊ := hlt
      _ ≤ halfEven y := floor_le_halfEven y
  · unfold halfEven
    rw [heq]
    split_ifs <;> first | omega | (exfalso; linarith)

/-! ## Bits that are shifted out -/

/-- A mantissa with the bits shifted out behind it records a number: the first of them is the
half, and the other one says whether anything is left below it. -/
def Records (em : ExtendedMantissa) (x : ℝ) : Prop :=
  let halves := 2 * em.mantissa + em.roundBit.toNat
  if em.stickyBit then halves < x + x ∧ x + x < halves + 1 else x + x = halves

theorem Records.floor (h : Records em x) : ⌊x⌋₊ = em.mantissa := by
  obtain ⟨m, r, s⟩ := em
  have hm : (0 : ℝ) ≤ m := Nat.cast_nonneg m
  cases r <;> cases s <;> simp [Records] at h <;>
    exact (Nat.floor_eq_iff (by linarith)).mpr ⟨by linarith, by linarith⟩

theorem Records.roundedMantissa (h : Records em x) : em.roundedMantissa = halfEven x := by
  have hfloor := h.floor
  unfold halfEven
  rw [hfloor]
  obtain ⟨m, r, s⟩ := em
  cases r <;> cases s <;> simp [Records] at h
  · rw [if_pos (by linarith)]
    rfl
  · rw [if_pos (by linarith)]
    rfl
  · rw [if_neg (by linarith), if_neg (by linarith)]
    rfl
  · rw [if_neg (by linarith), if_pos (by linarith)]
    rfl

theorem Records.shiftRightOne (h : Records em x) : Records em.shiftRightOne (x / 2) := by
  obtain ⟨m, r, s⟩ := em
  have hsplit : (m : ℝ) = 2 * (m / 2 : ℕ) + (m % 2 : ℕ) := by
    exact_mod_cast (Nat.div_add_mod m 2).symm
  have hbit : (m % 2 != 0).toNat = m % 2 := by
    rcases Nat.mod_two_eq_zero_or_one m with h | h <;> rw [h] <;> rfl
  simp only [Records, ExtendedMantissa.shiftRightOne, hbit]
  cases r <;> cases s <;> simp [Records] at h ⊢ <;> (try constructor) <;> linarith

theorem Records.shiftRight (h : Records em x) (n : Nat) : Records (em >>> n) (x / 2 ^ n) := by
  show Records (n.repeat ExtendedMantissa.shiftRightOne em) (x / 2 ^ n)
  induction n with
  | zero => simpa [Nat.repeat] using h
  | succ n ih =>
    rw [pow_succ, ← div_div]
    exact ih.shiftRightOne

/-! ## Rounding to a double -/

/-- The exponent of the last bit that a double keeps of a number. -/
noncomputable def lastPlace (x : ℝ) : Int :=
  max (Int.log 2 x - 52) (-1074)

/-- A number rounded to the bits that a double keeps of it. -/
noncomputable def rounded (x : ℝ) : ℝ :=
  let place := ((2 : ℕ) : ℝ) ^ lastPlace x
  halfEven (x / place) * place

/-- The number that the double nearest to `x` stands for. -/
noncomputable def nearest (x : EReal) : EReal :=
  if x = ⊤ then ⊤ else if rounded x.toReal < (2 ^ 1024 : ℕ) then rounded x.toReal else ⊤

theorem rounded_eq (x : ℝ) :
    rounded x = halfEven (x / 2 ^ lastPlace x) * 2 ^ lastPlace x :=
  rfl

theorem lastPlace_mono (hx : 0 < x) (h : x ≤ y) : lastPlace x ≤ lastPlace y :=
  max_le_max_right _ (Int.sub_le_sub_right (Int.log_mono_right hx h) _)

theorem halfEven_le (x : ℝ) : halfEven (x / 2 ^ lastPlace x) ≤ 2 ^ 53 := by
  have hlast : Int.log 2 x + 1 ≤ 53 + lastPlace x := by
    have := le_max_left (Int.log 2 x - 52) (-1074)
    unfold lastPlace
    omega
  have hlt : x / 2 ^ lastPlace x ≤ ((2 ^ 53 : ℕ) : ℝ) := by
    rw [div_le_iff₀ (zpow_pos two_pos _)]
    calc x
        ≤ 2 ^ (Int.log 2 x + 1) := (Int.lt_zpow_succ_log_self one_lt_two x).le
      _ ≤ 2 ^ (53 + lastPlace x) := zpow_le_zpow_right₀ one_le_two hlast
      _ = ((2 ^ 53 : ℕ) : ℝ) * 2 ^ lastPlace x := by rw [zpow_add₀ two_ne_zero]; norm_cast
  calc halfEven (x / 2 ^ lastPlace x)
      ≤ halfEven ((2 ^ 53 : ℕ) : ℝ) := halfEven_mono hlt
    _ = 2 ^ 53 := halfEven_natCast _

theorem le_halfEven (hx : 0 < x) (h : -1074 < lastPlace x) :
    2 ^ 52 ≤ halfEven (x / 2 ^ lastPlace x) := by
  have hlast : lastPlace x + 52 = Int.log 2 x := by
    unfold lastPlace at h ⊢
    omega
  have hle : ((2 ^ 52 : ℕ) : ℝ) ≤ x / 2 ^ lastPlace x := by
    rw [le_div_iff₀ (zpow_pos two_pos _)]
    calc ((2 ^ 52 : ℕ) : ℝ) * 2 ^ lastPlace x
        = 2 ^ (lastPlace x + 52) := by rw [add_comm, zpow_add₀ two_ne_zero]; norm_cast
      _ = 2 ^ Int.log 2 x := by rw [hlast]
      _ ≤ x := Int.zpow_log_le_self one_lt_two hx
  calc 2 ^ 52
      = halfEven ((2 ^ 52 : ℕ) : ℝ) := (halfEven_natCast _).symm
    _ ≤ halfEven (x / 2 ^ lastPlace x) := halfEven_mono hle

theorem rounded_mono (hx : 0 < x) (h : x ≤ y) : rounded x ≤ rounded y := by
  rcases (lastPlace_mono hx h).lt_or_eq with hlt | heq
  · have hleast : -1074 ≤ lastPlace x := le_max_right _ _
    have hx' : (halfEven (x / 2 ^ lastPlace x) : ℝ) ≤ 2 ^ (53 : ℤ) := by
      exact_mod_cast halfEven_le x
    have hy' : (2 : ℝ) ^ (52 : ℤ) ≤ halfEven (y / 2 ^ lastPlace y) := by
      exact_mod_cast le_halfEven (hx.trans_le h) (hleast.trans_lt hlt)
    calc rounded x
        ≤ 2 ^ (53 : ℤ) * 2 ^ lastPlace x := mul_le_mul_of_nonneg_right hx' (zpow_pos two_pos _).le
      _ = 2 ^ (53 + lastPlace x) := (zpow_add₀ two_ne_zero _ _).symm
      _ ≤ 2 ^ (52 + lastPlace y) := zpow_le_zpow_right₀ one_le_two (by omega)
      _ = 2 ^ (52 : ℤ) * 2 ^ lastPlace y := zpow_add₀ two_ne_zero _ _
      _ ≤ rounded y := mul_le_mul_of_nonneg_right hy' (zpow_pos two_pos _).le
  · rw [rounded_eq, rounded_eq, heq]
    have hpos : (0 : ℝ) < 2 ^ lastPlace y := zpow_pos two_pos _
    refine mul_le_mul_of_nonneg_right ?_ hpos.le
    exact Nat.cast_le.mpr (halfEven_mono (div_le_div_of_nonneg_right h hpos.le))

theorem rounded_zero : rounded 0 = 0 := by
  have hnone : halfEven 0 = 0 := by exact_mod_cast halfEven_natCast 0
  rw [rounded_eq, zero_div, hnone, Nat.cast_zero, zero_mul]

theorem rounded_nonneg (x : ℝ) : 0 ≤ rounded x :=
  mul_nonneg (Nat.cast_nonneg _) (zpow_pos two_pos _).le

theorem nearest_coe (x : ℝ) :
    nearest x = if rounded x < 2 ^ 1024 then (rounded x : EReal) else ⊤ := by
  rw [nearest, if_neg (EReal.coe_ne_top x), EReal.toReal_coe, Nat.cast_pow, Nat.cast_ofNat]

theorem nearest_top : nearest ⊤ = ⊤ :=
  if_pos rfl

theorem nearest_zero : nearest 0 = 0 := by
  have h := nearest_coe 0
  rw [rounded_zero, if_pos (by positivity)] at h
  exact h

/-- A larger number is not rounded to a smaller one. -/
theorem nearest_mono {v w : EReal} (hv : 0 ≤ v) (h : v ≤ w) : nearest v ≤ nearest w := by
  induction w with
  | bot => exact absurd (hv.trans h) (not_le.mpr EReal.bot_lt_zero)
  | top => rw [nearest_top]; exact le_top
  | coe y =>
    induction v with
    | bot => exact absurd hv (not_le.mpr EReal.bot_lt_zero)
    | top => exact absurd h (not_le.mpr (EReal.coe_lt_top y))
    | coe x =>
      have hle : rounded x ≤ rounded y := by
        rcases (EReal.coe_nonneg.mp hv).lt_or_eq with hpos | rfl
        · exact rounded_mono hpos (EReal.coe_le_coe_iff.mp h)
        · exact rounded_zero.trans_le (rounded_nonneg y)
      rw [nearest_coe, nearest_coe]
      split_ifs with hx hy hy
      · exact EReal.coe_le_coe_iff.mpr hle
      · exact le_top
      · exact absurd (hle.trans_lt hy) hx
      · exact le_refl _

theorem mantissa_ofMantissaAndAccuracy :
    (ExtendedMantissa.ofMantissaAndAccuracy m accuracy).mantissa = m := by
  rcases accuracy with _ | _ | _ | _ <;> rfl

/-- A recorded number lies above its mantissa, by less than the next bit. -/
theorem Records.bounds (h : Records (.ofMantissaAndAccuracy m accuracy) (x / 2 ^ e)) (hm : 0 < m) :
    m * 2 ^ e ≤ x ∧ x < (m + 1) * 2 ^ e := by
  have hpos : (0 : ℝ) < 2 ^ e := zpow_pos two_pos e
  have hfloor := h.floor
  rw [mantissa_ofMantissaAndAccuracy, Nat.floor_eq_iff' hm.ne'] at hfloor
  exact ⟨(le_div_iff₀ hpos).mp hfloor.1, (div_lt_iff₀ hpos).mp hfloor.2⟩

theorem Records.pos (h : Records (.ofMantissaAndAccuracy m accuracy) (x / 2 ^ e)) (hm : 0 < m) :
    0 < x :=
  (magnitude_pos hm e).trans_le (h.bounds hm).1

theorem log_eq (h : Records (.ofMantissaAndAccuracy m accuracy) (x / 2 ^ e)) (hm : 0 < m) :
    Int.log 2 x = m.log2 + e := by
  have hpos : (0 : ℝ) < 2 ^ e := zpow_pos two_pos e
  obtain ⟨hle, hlt⟩ := h.bounds hm
  have hlow : (2 : ℝ) ^ (m.log2 + e) ≤ x := by
    have hm' : (2 : ℝ) ^ (m.log2 : ℤ) ≤ m := by exact_mod_cast Nat.log2_self_le hm.ne'
    calc (2 : ℝ) ^ (m.log2 + e)
        = 2 ^ (m.log2 : ℤ) * 2 ^ e := zpow_add₀ two_ne_zero _ _
      _ ≤ m * 2 ^ e := mul_le_mul_of_nonneg_right hm' hpos.le
      _ ≤ x := hle
  have hhigh : x < (2 : ℝ) ^ (m.log2 + e + 1) := by
    have hm' : (m : ℝ) + 1 ≤ 2 ^ (m.log2 + 1 : ℤ) := by exact_mod_cast Nat.lt_log2_self
    calc x
        < (m + 1) * 2 ^ e := hlt
      _ ≤ 2 ^ (m.log2 + 1 : ℤ) * 2 ^ e := mul_le_mul_of_nonneg_right hm' hpos.le
      _ = 2 ^ (m.log2 + e + 1) := by
        rw [← zpow_add₀ two_ne_zero]
        congr 1
        ring
  have hx := h.pos hm
  have hge := (Int.zpow_le_iff_le_log one_lt_two hx).mp hlow
  have hlt := (Int.lt_zpow_iff_log_lt one_lt_two hx).mp hhigh
  omega

theorem targetExponent_totalExponent (m : Nat) (e : Int) :
    Format.binary64.targetExponent (totalExponent m e) = max (m.log2 + e - 52) (-1074) := by
  have hbits : (Format.binary64.mantissaBits : Int) = 53 := rfl
  have hleast : Format.binary64.minExponent = -1074 := rfl
  rw [Format.targetExponent, totalExponent, hbits, hleast]
  congr 1
  omega

/-- Shifting to the target exponent drops the bits that a double does not keep. -/
theorem shiftToTargetExponent_records
    (h : Records (.ofMantissaAndAccuracy m accuracy) (x / 2 ^ e)) (hm : 0 < m)
    (he : e ≤ lastPlace x) :
    Records (shiftToTargetExponent Format.binary64 m e accuracy).1 (x / 2 ^ lastPlace x) ∧
      (shiftToTargetExponent Format.binary64 m e accuracy).2 = lastPlace x := by
  have htarget : Format.binary64.targetExponent (totalExponent m e) = lastPlace x := by
    rw [targetExponent_totalExponent, lastPlace, log_eq h hm]
  have hamount : e + (lastPlace x - e).toNat = lastPlace x := by omega
  have hscale : x / 2 ^ lastPlace x = x / 2 ^ e / 2 ^ (lastPlace x - e).toNat := by
    rw [div_div, ← zpow_natCast, ← zpow_add₀ two_ne_zero, hamount]
  simp only [shiftToTargetExponent, shiftToExponent, htarget]
  exact ⟨hscale ▸ h.shiftRight _, hamount⟩

/-- A mantissa that was rounded is shifted once more when it has become too long. -/
theorem shiftToTargetExponent_again {k : Nat} {t : Int} (ht : -1074 ≤ t) (hk : k ≤ 2 ^ 53) :
    (shiftToTargetExponent Format.binary64 k t .exact).1.mantissa =
        (if k < 2 ^ 53 then k else 2 ^ 52) ∧
      (shiftToTargetExponent Format.binary64 k t .exact).2 = (if k < 2 ^ 53 then t else t + 1) := by
  simp only [shiftToTargetExponent, shiftToExponent, targetExponent_totalExponent]
  split_ifs with hlt
  · have hlog : k.log2 ≤ 52 := by
      rcases Nat.eq_zero_or_pos k with rfl | hpos
      · decide
      · exact Nat.le_of_lt_succ ((Nat.log2_lt hpos.ne').mpr hlt)
    have hamount : (max (k.log2 + t - 52) (-1074) - t).toNat = 0 := by omega
    rw [hamount]
    exact ⟨rfl, by omega⟩
  · have hk : k = 2 ^ 53 := by omega
    have hlog : k.log2 = 53 := by rw [hk, Nat.log2_two_pow]
    have hamount : (max (k.log2 + t - 52) (-1074) - t).toNat = 1 := by omega
    rw [hamount]
    subst hk
    exact ⟨rfl, by omega⟩

theorem Canonical.magnitude_lt_iff (hc : Canonical m e) :
    m * (2 : ℝ) ^ e < 2 ^ 1024 ↔ e ≤ 971 := by
  have hcast : (2 : ℝ) ^ 1024 = 2 ^ (1024 : ℤ) := (zpow_natCast 2 1024).symm
  rw [hcast]
  constructor
  · intro hlt
    by_contra hlarge
    have hle := hc.le_magnitude (by omega)
    have hpow : (2 : ℝ) ^ (1024 : ℤ) ≤ 2 ^ (e + 52) := zpow_le_zpow_right₀ one_le_two (by omega)
    exact absurd hlt (not_lt.mpr (hpow.trans hle))
  · intro hsmall
    exact hc.magnitude_lt.trans_le (zpow_le_zpow_right₀ one_le_two (by omega))

/-- A number that is recorded is rounded to the nearest double. -/
theorem round_recorded (h : Records (.ofMantissaAndAccuracy m accuracy) (x / 2 ^ e)) (hm : 0 < m)
    (he : e ≤ lastPlace x) :
    (packed (roundWithAccuracy Format.binary64 .positive m e accuracy)).isNaN = false ∧
      value (packed (roundWithAccuracy Format.binary64 .positive m e accuracy)) = nearest x := by
  obtain ⟨hrecords, hexponent⟩ := shiftToTargetExponent_records h hm he
  have hleast : -1074 ≤ lastPlace x := le_max_right _ _
  have hround : roundWithAccuracy Format.binary64 .positive m e accuracy =
      let c := shiftToTargetExponent Format.binary64
        (shiftToTargetExponent Format.binary64 m e accuracy).1.roundedMantissa
        (shiftToTargetExponent Format.binary64 m e accuracy).2 .exact
      if h : c.1.mantissa = 0 then .zero .positive
      else .finite .positive c.1.mantissa c.2 (Nat.pos_of_ne_zero h) := rfl
  obtain ⟨hmantissa, hexponent'⟩ := shiftToTargetExponent_again hleast (halfEven_le x)
  rw [hround, hrecords.roundedMantissa, hexponent]
  generalize shiftToTargetExponent Format.binary64 (halfEven (x / 2 ^ lastPlace x)) (lastPlace x)
    .exact = c at hmantissa hexponent' ⊢
  dsimp only
  split
  · next hzero =>
    have hnone : halfEven (x / 2 ^ lastPlace x) = 0 := by
      rw [hmantissa] at hzero
      split_ifs at hzero
      exact hzero
    have hrounded : rounded x = 0 := by rw [rounded_eq, hnone, Nat.cast_zero, zero_mul]
    rw [nearest_coe, hrounded, if_pos (by positivity)]
    exact ⟨rfl, rfl⟩
  · next hpos =>
    have hc : Canonical c.1.mantissa c.2 := by
      rw [hmantissa] at hpos
      rw [hmantissa, hexponent']
      split_ifs at hpos ⊢ with hlt
      · exact ⟨Nat.pos_of_ne_zero hpos, hlt, hleast, le_halfEven (h.pos hm)⟩
      · exact ⟨by decide, by decide, by omega, fun _ => le_refl _⟩
    have hsame : (c.1.mantissa : ℝ) * 2 ^ c.2 = rounded x := by
      rw [hmantissa, hexponent', rounded_eq]
      split_ifs with hlt
      · rfl
      · have hfull : halfEven (x / 2 ^ lastPlace x) = 2 ^ 53 :=
          le_antisymm (halfEven_le x) (not_lt.mp hlt)
        rw [hfull, zpow_add₀ two_ne_zero]
        push_cast
        ring
    refine ⟨?_, ?_⟩
    · rw [packed_finite hc]
      split_ifs <;> rfl
    · rw [packed_finite hc, apply_ite value, nearest_coe, ← hsame]
      simp only [hc.magnitude_lt_iff]
      rfl

end Ridership.Double
