import Mathlib.Data.Rat.Cast.Order
import Mathlib.Tactic.Linarith
import Mathlib.Tactic.NormNum
import Mathlib.Tactic.Positivity
import Mathlib.Tactic.Ring
import Ridership.Proofs.Store.History

/-!
# More evidence never makes an edge dearer

In exact arithmetic the factor of an edge falls as its popularity grows, from one down to a half.
The counters of a store only grow as long as nothing is set, and stop at the largest number, so the
cost of an edge only falls, and it stays between its cost without evidence and half of that. Nothing
is said here about doubles, in which the costs are computed when the program runs.
-/

namespace Ridership

namespace Routing

variable {p q : UInt32} {base priority : ℚ}

theorem popularityFactor_eq (p : UInt32) :
    popularityFactor p =
      if 1 < p.toNat then max (1 / 2 : ℚ) (1 - (p.toNat : ℚ) / 5000) else 1 := by
  have hhalf : (0.5 : ℚ) = 1 / 2 := by norm_num
  have hone : (1.0 : ℚ) = 1 := by norm_num
  have hscale : (5000.0 : ℚ) = 5000 := by norm_num
  have hrode : 1 < p ↔ 1 < p.toNat := UInt32.lt_iff_toNat_lt
  simp only [popularityFactor, hhalf, hone, hscale, hrode]
  split
  · split
    · next hlow => exact (max_eq_left hlow.le).symm
    · next hhigh => exact (max_eq_right (not_lt.mp hhigh)).symm
  · rfl

theorem half_le_popularityFactor (p : UInt32) : 1 / 2 ≤ (popularityFactor p : ℚ) := by
  rw [popularityFactor_eq]
  split
  · exact le_max_left _ _
  · norm_num

theorem popularityFactor_le_one (p : UInt32) : (popularityFactor p : ℚ) ≤ 1 := by
  rw [popularityFactor_eq]
  split
  · have hnonneg : (0 : ℚ) ≤ p.toNat / 5000 := by positivity
    exact max_le (by norm_num) (by linarith)
  · exact le_refl 1

/-- The factor does not rise where the fall begins, at popularity two, nor where it ends. -/
theorem popularityFactor_anti (h : p ≤ q) : (popularityFactor q : ℚ) ≤ popularityFactor p := by
  have hle : p.toNat ≤ q.toNat := UInt32.le_iff_toNat_le.mp h
  by_cases hp : 1 < p.toNat
  · have hfall : (p.toNat : ℚ) / 5000 ≤ q.toNat / 5000 := by
      have : (p.toNat : ℚ) ≤ q.toNat := Nat.cast_le.mpr hle
      linarith
    rw [popularityFactor_eq, popularityFactor_eq, if_pos hp, if_pos (Nat.lt_of_lt_of_le hp hle)]
    exact max_le_max (le_refl _) (by linarith)
  · rw [popularityFactor_eq p, if_neg hp]
    exact popularityFactor_le_one q

theorem edgeCost_anti (hbase : 0 ≤ base) (hpriority : 0 ≤ priority) (h : p ≤ q) :
    edgeCost base priority q ≤ edgeCost base priority p :=
  mul_le_mul_of_nonneg_left (popularityFactor_anti h) (mul_nonneg hbase hpriority)

theorem half_plainCost_le_edgeCost (hbase : 0 ≤ base) (hpriority : 0 ≤ priority) (p : UInt32) :
    plainCost base priority / 2 ≤ edgeCost base priority p := by
  have hplain : 0 ≤ plainCost base priority := mul_nonneg hbase hpriority
  calc plainCost base priority / 2
      = plainCost base priority * (1 / 2) := by ring
    _ ≤ edgeCost base priority p := mul_le_mul_of_nonneg_left (half_le_popularityFactor p) hplain

theorem edgeCost_le_plainCost (hbase : 0 ≤ base) (hpriority : 0 ≤ priority) (p : UInt32) :
    edgeCost base priority p ≤ plainCost base priority :=
  mul_le_of_le_one_right (mul_nonneg hbase hpriority) (popularityFactor_le_one p)

end Routing

namespace Store

open Routing (edgeCost plainCost popularityFactor)

variable {s : Store} {e : EdgeId} {calls earlier later : List Call}

/-- The cost of an edge, computed exactly. -/
def exactCost (s : Store) (base priority : ℚ) (e : EdgeId) : Except Misuse ℚ :=
  (s.popularity e).map (edgeCost base priority)

theorem exactCost_of_popularity {p : UInt32} (h : s.popularity e = .ok p) (base priority : ℚ) :
    s.exactCost base priority e = .ok (edgeCost base priority p) := by
  rw [exactCost, h]
  rfl

theorem run_append (s : Store) (d : Disk) (earlier later : List Call) :
    s.run d (earlier ++ later) = (s.run d earlier).1.run (s.run d earlier).2 later := by
  rw [run, List.foldl_append]
  rfl

/-- An edge that is not set keeps its counter or has a larger one. -/
theorem records_le_run (d : Disk) (hin : ∀ c ∈ calls, c.InRange s.edgeCount)
    (hset : ∀ n, .set e n ∉ calls) (he : e.toNat < s.records.size)
    (he' : e.toNat < (s.run d calls).1.records.size) :
    s.records[e.toNat].toNat ≤ (s.run d calls).1.records[e.toNat].toNat := by
  cases hr : s.readOnly with
  | true => simp only [run_readOnly d calls hr, le_refl]
  | false =>
    have hholds := run_holds d hr hin s.holds_self e he'
    rw [hholds, foldl_retotal hset, counter_of_lt he]
    exact Nat.le_min.mpr ⟨toNat_le_maxCount _, Nat.le_add_left _ _⟩

theorem popularity_le_run (d : Disk) (hin : ∀ c ∈ calls, c.InRange s.edgeCount)
    (hset : ∀ n, .set e n ∉ calls) (he : e.toNat < s.edgeCount) :
    ∃ p q, s.popularity e = .ok p ∧ (s.run d calls).1.popularity e = .ok q ∧ p ≤ q := by
  have he' : e.toNat < (s.run d calls).1.records.size := by
    rw [(recounts_run s d calls).size_eq]
    exact he
  obtain ⟨p, hp, hpn⟩ := popularity_of_lt he
  obtain ⟨q, hq, hqn⟩ := popularity_of_lt he'
  have hle := records_le_run d hin hset he he'
  exact ⟨p, q, hp, hq, UInt32.le_iff_toNat_le.mpr (by omega)⟩

/-- The factor falls from one down to a half as popularity grows. So for whatever base weight and
priority, the cost of an edge of a store does not rise from any of a sequence of calls to a later
one, as long as the edge is not set; it is never less than half the cost without evidence, and never
more than that. The counters may be full. -/
theorem evidence_never_raises_cost :
    (∀ p q : UInt32, p ≤ q → 1 / 2 ≤ (popularityFactor q : ℚ) ∧
      (popularityFactor q : ℚ) ≤ popularityFactor p ∧ (popularityFactor p : ℚ) ≤ 1) ∧
    ∀ (s : Store) (d : Disk) (earlier later : List Call) (e : EdgeId) (base priority : ℚ),
      (∀ c ∈ earlier ++ later, c.InRange s.edgeCount) → (∀ n, .set e n ∉ earlier ++ later) →
      e.toNat < s.edgeCount → 0 ≤ base → 0 ≤ priority →
      ∃ before after, (s.run d earlier).1.exactCost base priority e = .ok before ∧
        (s.run d (earlier ++ later)).1.exactCost base priority e = .ok after ∧
        plainCost base priority / 2 ≤ after ∧ after ≤ before ∧
        before ≤ plainCost base priority := by
  refine ⟨fun p q h => ⟨Routing.half_le_popularityFactor q, Routing.popularityFactor_anti h,
    Routing.popularityFactor_le_one p⟩, ?_⟩
  intro s d earlier later e base priority hin hset he hbase hpriority
  have hcount : (s.run d earlier).1.edgeCount = s.edgeCount := (recounts_run s d earlier).size_eq
  have hin' : ∀ c ∈ later, c.InRange (s.run d earlier).1.edgeCount := by
    rw [hcount]
    exact fun c hc => hin c (List.mem_append_right earlier hc)
  obtain ⟨p, q, hp, hq, hle⟩ := popularity_le_run (s.run d earlier).2 hin'
    (fun n hn => hset n (List.mem_append_right earlier hn)) (hcount ▸ he)
  rw [← run_append] at hq
  exact ⟨_, _, exactCost_of_popularity hp base priority, exactCost_of_popularity hq base priority,
    Routing.half_plainCost_le_edgeCost hbase hpriority q, Routing.edgeCost_anti hbase hpriority hle,
    Routing.edgeCost_le_plainCost hbase hpriority p⟩

/-- Edge 1 is ridden 999 times, and then 1500 times more, which halves its cost. The counter of
edge 0 is full, and its cost is no less when it is ridden again. -/
theorem cost_of_two_edges :
    let s : Store := ⟨"index", 0, #[4294967295, 0], false⟩
    let earlier : List Call := [.merge [(1, 999)]]
    let later : List Call := [.add 1 1000, .add 0 4294967295, .merge [(1, 500)]]
    (s.run {} earlier).1.exactCost 10 (4 / 5) 1 = .ok (32 / 5) ∧
      (s.run {} (earlier ++ later)).1.exactCost 10 (4 / 5) 1 = .ok 4 ∧
      (∃ before after, (s.run {} earlier).1.exactCost 10 (4 / 5) 0 = .ok before ∧
        (s.run {} (earlier ++ later)).1.exactCost 10 (4 / 5) 0 = .ok after ∧
        4 ≤ after ∧ after ≤ before) ∧
      (s.run {} (earlier ++ later)).1.popularity 0 = .ok 4294967295 := by
  intro s earlier later
  have hearlier : (s.run {} earlier).1.popularity 1 = .ok 1000 := by
    decide +kernel
  have hlater : (s.run {} (earlier ++ later)).1.popularity 1 = .ok 2500 := by
    decide +kernel
  have hthousand : edgeCost 10 (4 / 5) 1000 = (32 / 5 : ℚ) := by decide +kernel
  have hhalved : edgeCost 10 (4 / 5) 2500 = (4 : ℚ) := by decide +kernel
  have hin : ∀ c ∈ earlier ++ later, c.InRange s.edgeCount := by
    simp [earlier, later, s, Call.InRange, edgeCount]
  obtain ⟨-, hcosts⟩ := evidence_never_raises_cost
  obtain ⟨before, after, hbefore, hafter, hhalf, hle, -⟩ :=
    hcosts s {} earlier later 0 10 (4 / 5) hin (by simp [earlier, later]) (by decide)
      (by norm_num) (by norm_num)
  rw [plainCost] at hhalf
  refine ⟨?_, ?_, ⟨before, after, hbefore, hafter, by linarith, hle⟩, by decide +kernel⟩
  · rw [exactCost_of_popularity hearlier, hthousand]
  · rw [exactCost_of_popularity hlater, hhalved]

end Store

end Ridership
