import Ridership.Decimal.Natural

/-!
# Spellings of a number

A number may be written with a plus sign or with zeros in front. Without them there is one way to
write it, by its decimal digits.
-/

namespace Ridership.Decimal

variable {cs : List Char} {c : Char} {bound m n d : Nat}

theorem digitChar_of_digit? (h : digit? c = some d) : d < 10 ∧ d.digitChar = c := by
  unfold digit? at h
  split at h
  · next hrange =>
    cases h
    have hlow : 48 ≤ c.toNat := hrange.1
    have hhigh : c.toNat ≤ 57 := hrange.2
    refine ⟨by omega, Char.toNat_inj.mp ?_⟩
    rw [Nat.toNat_digitChar_of_lt_ten (by omega)]
    omega
  · cases h

/-- Digits that follow those of a number write the digits of the number they lead to. A zero has
no digits to follow: it would be written in front of them. -/
theorem toDigits_of_natFrom? (hm : 0 < m) (h : natFrom? m cs = some n) :
    Nat.toDigits 10 m ++ cs = Nat.toDigits 10 n := by
  induction cs generalizing m with
  | nil =>
    obtain rfl : m = n := Option.some_inj.mp h
    exact List.append_nil _
  | cons c rest ih =>
    obtain ⟨d, hd, hrest⟩ := Option.bind_eq_some_iff.mp h
    obtain ⟨hlt, rfl⟩ := digitChar_of_digit? hd
    calc Nat.toDigits 10 m ++ d.digitChar :: rest
        = Nat.toDigits 10 m ++ Nat.toDigits 10 d ++ rest := by
          rw [Nat.toDigits_of_lt_base hlt, List.append_assoc, List.singleton_append]
      _ = Nat.toDigits 10 (10 * m + d) ++ rest := by
          rw [Nat.toDigits_append_toDigits (by decide) hm hlt]
      _ = Nat.toDigits 10 n := ih (by omega) hrest

/-- A number is written plainly without a plus sign, and without zeros in front of other digits. -/
structure Plain (cs : List Char) : Prop where
  no_plus : cs.head? ≠ some '+'
  no_zeros : cs.head? = some '0' → cs = ['0']

theorem natFrom?_of_natBelow? (hp : cs.head? ≠ some '+') (h : natBelow? bound cs = some n) :
    cs ≠ [] ∧ natFrom? 0 cs = some n := by
  obtain ⟨hdigits, -⟩ := Option.filter_eq_some_iff.mp h
  cases cs with
  | nil => cases hdigits
  | cons c rest =>
    refine ⟨nofun, ?_⟩
    split at hdigits
    · next hplus =>
      cases hplus
      exact absurd rfl hp
    · exact hdigits

/-- There is one plain way to write a number. -/
theorem Plain.eq_toDigits (hp : Plain cs) (h : natBelow? bound cs = some n) :
    cs = Nat.toDigits 10 n := by
  obtain ⟨hne, hn⟩ := natFrom?_of_natBelow? hp.no_plus h
  cases cs with
  | nil => exact absurd rfl hne
  | cons c rest =>
    obtain ⟨d, hd, hrest⟩ := Option.bind_eq_some_iff.mp hn
    obtain ⟨hlt, rfl⟩ := digitChar_of_digit? hd
    rw [Nat.mul_zero, Nat.zero_add] at hrest
    rcases Nat.eq_zero_or_pos d with rfl | hpos
    · obtain ⟨-, rfl⟩ := List.cons.inj (hp.no_zeros rfl)
      obtain rfl : 0 = n := Option.some_inj.mp hrest
      rfl
    · rw [← toDigits_of_natFrom? hpos hrest, Nat.toDigits_of_lt_base hlt, List.singleton_append]

end Ridership.Decimal
