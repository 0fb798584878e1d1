import Ridership.Proofs.Store.Counting

/-!
# Checked 64-bit arithmetic

These operations yield nothing where the result of the operation on 64-bit numbers is not that on
natural numbers. A calculation that is made of them yields a number only if no step of it overflows
or goes below zero, and it is then the number of the natural calculation.
-/

namespace Ridership.Word

variable {a b c : UInt64} {n : Nat} {counts : List UInt32}

def plus? (a b : UInt64) : Option UInt64 :=
  if a.toBitVec.uaddOverflow b.toBitVec then none else some (a + b)

def times? (a b : UInt64) : Option UInt64 :=
  if a.toBitVec.umulOverflow b.toBitVec then none else some (a * b)

def minus? (a b : UInt64) : Option UInt64 :=
  if a.toBitVec.usubOverflow b.toBitVec then none else some (a - b)

theorem exists_toNat (h : n < UInt64.size) : ∃ a : UInt64, a.toNat = n :=
  ⟨.ofNat n, UInt64.toNat_ofNat_of_lt h⟩

theorem plus?_eq_some_iff : plus? a b = some c ↔ a.toNat + b.toNat = c.toNat := by
  have hc := c.toNat_lt
  simp only [plus?, BitVec.uaddOverflow, UInt64.toNat_toBitVec, ge_iff_le, decide_eq_true_eq]
  split
  · next hlarge =>
    refine iff_of_false nofun fun heq => ?_
    omega
  · next hsmall =>
    rw [Option.some.injEq, ← UInt64.toNat_inj, UInt64.toNat_add, Nat.mod_eq_of_lt (by omega)]

theorem times?_eq_some_iff : times? a b = some c ↔ a.toNat * b.toNat = c.toNat := by
  have hc := c.toNat_lt
  simp only [times?, BitVec.umulOverflow, UInt64.toNat_toBitVec, ge_iff_le, decide_eq_true_eq]
  split
  · next hlarge =>
    refine iff_of_false nofun fun heq => ?_
    omega
  · next hsmall =>
    rw [Option.some.injEq, ← UInt64.toNat_inj, UInt64.toNat_mul, Nat.mod_eq_of_lt (by omega)]

theorem minus?_eq_some_iff : minus? a b = some c ↔ b.toNat + c.toNat = a.toNat := by
  simp only [minus?, BitVec.usubOverflow, UInt64.toNat_toBitVec, decide_eq_true_eq]
  split
  · next hlarge =>
    refine iff_of_false nofun fun heq => ?_
    omega
  · next hsmall =>
    have hle : b ≤ a := UInt64.le_iff_toNat_le.mpr (by omega)
    rw [Option.some.injEq, ← UInt64.toNat_inj, UInt64.toNat_sub_of_le _ _ hle]
    omega

theorem plus?_of_lt (h : a.toNat + b.toNat < UInt64.size) :
    ∃ c, plus? a b = some c ∧ c.toNat = a.toNat + b.toNat := by
  obtain ⟨c, hc⟩ := exists_toNat h
  exact ⟨c, plus?_eq_some_iff.mpr hc.symm, hc⟩

theorem times?_of_lt (h : a.toNat * b.toNat < UInt64.size) :
    ∃ c, times? a b = some c ∧ c.toNat = a.toNat * b.toNat := by
  obtain ⟨c, hc⟩ := exists_toNat h
  exact ⟨c, times?_eq_some_iff.mpr hc.symm, hc⟩

theorem minus?_of_le (h : b.toNat ≤ a.toNat) :
    ∃ c, minus? a b = some c ∧ c.toNat = a.toNat - b.toNat := by
  obtain ⟨c, hc⟩ := exists_toNat (Nat.lt_of_le_of_lt (Nat.sub_le a.toNat b.toNat) a.toNat_lt_size)
  exact ⟨c, minus?_eq_some_iff.mpr (by omega), hc⟩

/-! ## Sums of counters -/

/-- The sum of 32-bit counts as they are added to a 64-bit number one after another. -/
def sum? (counts : List UInt32) : Option UInt64 :=
  counts.foldlM (fun total k => plus? total k.toUInt64) 0

theorem foldlM_plus?_eq_some_iff :
    counts.foldlM (fun total k => plus? total k.toUInt64) a = some c ↔
      a.toNat + (counts.map UInt32.toNat).sum = c.toNat := by
  induction counts generalizing a with
  | nil => simp [UInt64.toNat_inj]
  | cons k rest ih =>
    have hc := c.toNat_lt_size
    rw [List.foldlM_cons, List.map_cons, List.sum_cons, Option.bind_eq_bind,
      Option.bind_eq_some_iff]
    constructor
    · rintro ⟨b, hstep, hrest⟩
      have hsum := ih.mp hrest
      rw [plus?_eq_some_iff, UInt32.toNat_toUInt64] at hstep
      omega
    · intro hsum
      obtain ⟨b, hstep, hb⟩ := plus?_of_lt (a := a) (b := k.toUInt64) (by
        rw [UInt32.toNat_toUInt64]
        omega)
      rw [UInt32.toNat_toUInt64] at hb
      exact ⟨b, hstep, ih.mpr (by omega)⟩

/-- Counts are summed without overflow exactly if their total is a 64-bit number, whatever the
sums on the way are. -/
theorem sum?_eq_some_iff : sum? counts = some c ↔ (counts.map UInt32.toNat).sum = c.toNat := by
  rw [sum?, foldlM_plus?_eq_some_iff, UInt64.toNat_zero, Nat.zero_add]

/-- As many counts as there are edge numbers have a 64-bit sum, with room for one more count. -/
theorem sum?_of_length_le (h : counts.length ≤ UInt32.size) :
    ∃ total, sum? counts = some total ∧ total.toNat = (counts.map UInt32.toNat).sum ∧
      total.toNat ≤ UInt64.size - UInt32.size := by
  have hle : (counts.map UInt32.toNat).sum ≤ UInt64.size - UInt32.size :=
    calc (counts.map UInt32.toNat).sum
        ≤ counts.length * maxCount := sum_counts_le counts
      _ ≤ UInt32.size * maxCount := Nat.mul_le_mul_right _ h
      _ = UInt64.size - UInt32.size := by decide
  obtain ⟨total, htotal⟩ := exists_toNat (Nat.lt_of_le_of_lt hle (by decide))
  exact ⟨total, sum?_eq_some_iff.mpr htotal.symm, htotal, htotal ▸ hle⟩

end Ridership.Word
