import Mathlib.Algebra.Order.BigOperators.Group.List
import Mathlib.Algebra.Order.Ring.Nat
import Ridership.Proofs.Success
import Ridership.Store

/-!
# What stores count

Counts are added to a store one after another, and a counter that would grow too large stays at the
largest number. What a counter holds in the end depends on the total of the counts alone: it is the
total, or the largest number when the total is larger.
-/

namespace Ridership

def maxCount : Nat := UInt32.size - 1

theorem toNat_le_maxCount (n : UInt32) : n.toNat ≤ maxCount :=
  Nat.le_pred_of_lt n.toNat_lt

theorem sum_counts_le (counts : List UInt32) :
    (counts.map UInt32.toNat).sum ≤ counts.length * maxCount := by
  have hmax : ∀ k ∈ counts.map UInt32.toNat, k ≤ maxCount := by
    intro k hk
    obtain ⟨n, -, rfl⟩ := List.mem_map.mp hk
    exact toNat_le_maxCount n
  have hsum := List.sum_le_card_nsmul _ _ hmax
  rwa [List.length_map, Nat.nsmul_eq_mul] at hsum

theorem toNat_addClipped (a b : UInt32) :
    (addClipped a b).toNat = min maxCount (a.toNat + b.toNat) := by
  unfold addClipped maxCount
  split
  · next h =>
    rw [UInt32.toNat_add, Nat.mod_eq_of_lt h]
    omega
  · next h =>
    have hmax : (0xffffffff : UInt32).toNat = UInt32.size - 1 := rfl
    rw [hmax]
    omega

namespace Store

variable {s t u : Store} {e : EdgeId} {n : UInt32} {total : EdgeId → Nat}

/-- The second store is the first with other counters. -/
structure Recounts (s t : Store) : Prop where
  path_eq : t.path = s.path
  file_eq : t.file = s.file
  readOnly_eq : t.readOnly = s.readOnly
  size_eq : t.records.size = s.records.size

theorem Recounts.refl : Recounts s s :=
  ⟨rfl, rfl, rfl, rfl⟩

theorem Recounts.trans (h : Recounts s t) (h' : Recounts t u) : Recounts s u :=
  ⟨h'.path_eq.trans h.path_eq, h'.file_eq.trans h.file_eq, h'.readOnly_eq.trans h.readOnly_eq,
    h'.size_eq.trans h.size_eq⟩

theorem recounts_set (h : s.set e n = .ok t) : Recounts s t := by
  obtain ⟨-, -, rfl⟩ := set_eq_ok h
  exact ⟨rfl, rfl, rfl, Array.size_setIfInBounds⟩

theorem recounts_add (h : s.add e n = .ok t) : Recounts s t := by
  unfold add at h
  split at h
  · cases h
  · obtain ⟨old, -, hset⟩ := bind_eq_ok h
    exact recounts_set hset

/-- Merging keeps the file of a store and its number of counters, also when it stops. -/
theorem recounts_merge (counts : List (EdgeId × UInt32)) : Recounts s (s.merge counts).1 := by
  induction counts generalizing s with
  | nil => exact .refl
  | cons c rest ih =>
    obtain ⟨e, n⟩ := c
    unfold merge
    cases ha : s.add e n with
    | error m => exact .refl
    | ok t => exact (recounts_add ha).trans ih

/-! ## Totals -/

/-- The counters of a store are these totals, as far as counters go. -/
def Holds (s : Store) (total : EdgeId → Nat) : Prop :=
  ∀ e : EdgeId, ∀ h : e.toNat < s.records.size,
    s.records[e.toNat].toNat = min maxCount (total e)

theorem holds_zeros {n : Nat} (h : s.records = Array.replicate n 0) : s.Holds fun _ => 0 := by
  intro e he
  simp [h]

/-- The counter of an edge; zero for an edge that the store does not have. -/
def counter (s : Store) (e : EdgeId) : Nat :=
  (s.records[e.toNat]?.getD 0).toNat

theorem counter_of_lt (h : e.toNat < s.records.size) : s.counter e = s.records[e.toNat].toNat := by
  rw [counter, Array.getElem?_eq_getElem h, Option.getD_some]

theorem counter_of_ge (h : s.records.size ≤ e.toNat) : s.counter e = 0 := by
  rw [counter, Array.getElem?_eq_none h]
  rfl

/-- Every store counts what its counters are. -/
theorem holds_self (s : Store) : s.Holds s.counter := by
  intro e he
  rw [counter_of_lt he, Nat.min_eq_right (toNat_le_maxCount _)]

theorem Holds.counter_eq (h : s.Holds total) (e : EdgeId) :
    s.counter e = if e.toNat < s.records.size then min maxCount (total e) else 0 := by
  split
  · next he => rw [counter_of_lt he, h e he]
  · next he => exact counter_of_ge (Nat.le_of_not_lt he)

/-- What a list of counts adds to the counter of an edge. -/
def added (counts : List (EdgeId × UInt32)) (e : EdgeId) : Nat :=
  (counts.map fun c => if c.1 = e then c.2.toNat else 0).sum

theorem added_cons (c : EdgeId × UInt32) (rest : List (EdgeId × UInt32)) (e : EdgeId) :
    added (c :: rest) e = (if c.1 = e then c.2.toNat else 0) + added rest e := by
  simp [added]

theorem added_perm {counts counts' : List (EdgeId × UInt32)} (h : counts.Perm counts')
    (e : EdgeId) : added counts e = added counts' e :=
  (h.map _).sum_nat

theorem get_of_lt (h : e.toNat < s.records.size) : s.get e = .ok s.records[e.toNat] := by
  unfold get
  rw [Array.getElem?_eq_getElem h]

theorem popularity_of_lt (h : e.toNat < s.records.size) :
    ∃ n, s.popularity e = .ok n ∧ n.toNat = min maxCount (s.records[e.toNat].toNat + 1) := by
  refine ⟨addClipped s.records[e.toNat] 1, ?_, toNat_addClipped _ 1⟩
  unfold popularity
  rw [get_of_lt h]
  rfl

/-- An edge of the store can be counted, and no other counter changes. -/
theorem add_holds (hw : s.readOnly = false) (he : e.toNat < s.records.size) (hs : s.Holds total)
    (n : UInt32) :
    ∃ t, s.add e n = .ok t ∧ t.Holds fun e' => (if e = e' then n.toNat else 0) + total e' := by
  have hadd : s.add e n = .ok
      { s with records := s.records.setIfInBounds e.toNat (addClipped s.records[e.toNat] n) } := by
    unfold add
    rw [if_neg (by simp [hw]), get_of_lt he]
    show s.set e _ = _
    unfold set
    rw [if_neg (by simp [hw])]
    exact if_pos he
  refine ⟨_, hadd, fun e' he' => ?_⟩
  have hlt : e'.toNat < s.records.size := by simpa using he'
  have hold := hs e' hlt
  show (s.records.setIfInBounds e.toNat _)[e'.toNat].toNat =
    min maxCount ((if e = e' then n.toNat else 0) + total e')
  rw [Array.getElem_setIfInBounds hlt]
  by_cases heq : e = e'
  · subst heq
    rw [if_pos rfl, if_pos rfl, toNat_addClipped, hold]
    omega
  · have hne : e.toNat ≠ e'.toNat := fun h => heq (UInt32.toNat_inj.mp h)
    rw [if_neg heq, if_neg hne, hold, Nat.zero_add]

/-- Counts of edges of the store are all added. -/
theorem merge_holds (counts : List (EdgeId × UInt32)) (hw : s.readOnly = false)
    (hin : ∀ c ∈ counts, c.1.toNat < s.records.size) (hs : s.Holds total) :
    ∃ t sum, s.merge counts = (t, .ok sum) ∧ t.Holds fun e => added counts e + total e := by
  induction counts generalizing s total with
  | nil => exact ⟨s, 0, rfl, by simpa [added] using hs⟩
  | cons c rest ih =>
    obtain ⟨e, n⟩ := c
    obtain ⟨t, hadd, ht⟩ := add_holds hw (hin _ List.mem_cons_self) hs n
    have hr := recounts_add hadd
    obtain ⟨u, sum, hmerge, hu⟩ := ih (hr.readOnly_eq.trans hw)
      (fun c hc => by rw [hr.size_eq]; exact hin c (List.mem_cons_of_mem _ hc)) ht
    refine ⟨u, n.toNat + sum, ?_, ?_⟩
    · simp only [merge, hadd, hmerge]
      rfl
    · simpa only [added_cons, Nat.add_assoc, Nat.add_left_comm] using hu

end Store

end Ridership
