import Ridership.Proofs.Build.Filling
import Ridership.Proofs.Tally.Counting

/-!
# The totals of a merging

However the results of the tracks arrive, and however the counts in them are visited, every counter
holds in the end the sum of what all tracks count for its edge, or the largest number when the sum
is larger.
-/

namespace Ridership

open Store (added)

/-! ## The counts of a tally -/

namespace Store

variable {counts : List (EdgeId × UInt32)} {e : EdgeId} {n : UInt32}

theorem added_of_not_mem (h : ∀ c ∈ counts, c.1 ≠ e) : added counts e = 0 := by
  induction counts with
  | nil => rfl
  | cons c rest ih =>
    rw [added_cons, if_neg (h c List.mem_cons_self), ih fun c hc => h c (List.mem_cons_of_mem _ hc)]

/-- In a list with one count for each edge the count of an edge is all that it adds. -/
theorem added_of_mem (hd : counts.Pairwise fun a b => a.1 ≠ b.1) (h : (e, n) ∈ counts) :
    added counts e = n.toNat := by
  induction counts with
  | nil => cases h
  | cons c rest ih =>
    obtain ⟨hfirst, hrest⟩ := List.pairwise_cons.mp hd
    rw [added_cons]
    rcases List.mem_cons.mp h with rfl | hmem
    · rw [if_pos rfl, added_of_not_mem fun c hc heq => hfirst c hc heq.symm, Nat.add_zero]
    · rw [if_neg (hfirst _ hmem), ih hrest hmem, Nat.zero_add]

/-- The counts of a tally add for an edge what the tally has for it. -/
theorem added_toList (t : Tally) (e : EdgeId) : added t.toList e = (t.getD e 0).toNat := by
  have hd : t.toList.Pairwise fun a b => a.1 ≠ b.1 := by
    refine t.distinct_keys_toList.imp fun hne heq => hne ?_
    rw [heq]
    exact Std.ReflCmp.compare_self
  rw [Std.TreeMap.getD_eq_getD_getElem?]
  cases hget : t[e]? with
  | none =>
    apply added_of_not_mem
    rintro ⟨e', n⟩ hmem rfl
    rw [Std.TreeMap.mem_toList_iff_getElem?_eq_some, hget] at hmem
    cases hmem
  | some n => exact added_of_mem hd (Std.TreeMap.mem_toList_iff_getElem?_eq_some.mpr hget)

end Store

namespace Build

variable {policy : FailurePolicy} {m : Merging} {r : Result} {results : List Result}
  {total : EdgeId → Nat}

/-! ## The results of tracks -/

/-- What a result adds to the counter of an edge. -/
def contribution (e : EdgeId) (r : Result) : Nat :=
  match r.2 with
  | .ok counts => added counts e
  | .error _ => 0

def contributions (results : List Result) (e : EdgeId) : Nat :=
  (results.map (contribution e)).sum

theorem contributions_perm {results' : List Result} (h : results.Perm results') (e : EdgeId) :
    contributions results e = contributions results' e :=
  (h.map _).sum_nat

def InRange (edgeCount : Nat) (r : Result) : Prop :=
  ∀ counts, r.2 = .ok counts → ∀ c ∈ counts, c.1.toNat < edgeCount

/-- The policy lets the merging go on after the result. -/
def Tolerated (policy : FailurePolicy) (r : Result) : Prop :=
  policy = .bestEffort ∨ ∃ counts, r.2 = .ok counts

namespace Merging

/-- A result that is taken in adds its counts. -/
theorem step_holds (n : Nat) (hw : m.store.readOnly = false)
    (hin : InRange m.store.records.size r) (hp : Tolerated policy r) (hs : m.store.Holds total) :
    ∃ events m', m.step policy n r = (events, .ok m') ∧
      m'.store.Holds fun e => contribution e r + total e := by
  obtain ⟨path, failure | counts⟩ := r
  · obtain rfl : policy = .bestEffort := hp.resolve_right fun ⟨_, h⟩ => by cases h
    refine ⟨_, _, rfl, ?_⟩
    simpa [contribution] using hs
  · obtain ⟨t, sum, hmerge, ht⟩ := Store.merge_holds counts hw (hin counts rfl) hs
    simp only [step, hmerge]
    exact ⟨_, _, rfl, ht⟩

/-- All results are taken in, and all their counts are added. -/
theorem run_holds (n : Nat) (hw : m.store.readOnly = false)
    (hin : ∀ r ∈ results, InRange m.store.records.size r)
    (hp : ∀ r ∈ results, Tolerated policy r) (hs : m.store.Holds total) :
    ∃ events m', run policy n m results = (events, .ok m') ∧
      m'.store.Holds fun e => contributions results e + total e := by
  induction results generalizing m total with
  | nil => exact ⟨_, m, rfl, by simpa [contributions] using hs⟩
  | cons r rest ih =>
    obtain ⟨first, m₁, hstep, hs₁⟩ := step_holds n hw (hin r List.mem_cons_self)
      (hp r List.mem_cons_self) hs
    have hr := recounts_step hstep
    obtain ⟨more, m₂, hrun, hs₂⟩ := ih (hr.readOnly_eq.trans hw)
      (fun r hmem => by rw [hr.size_eq]; exact hin r (List.mem_cons_of_mem _ hmem))
      (fun r hmem => hp r (List.mem_cons_of_mem _ hmem)) hs₁
    refine ⟨first ++ more, m₂, ?_, ?_⟩
    · simp only [run, hstep, hrun]
    · simpa [contributions, Nat.add_assoc, Nat.add_left_comm] using hs₂

end Merging

theorem mergeAll_holds {store : Store} (hw : store.readOnly = false)
    (hin : ∀ r ∈ results, InRange store.records.size r)
    (hp : ∀ r ∈ results, Tolerated policy r) (hs : store.Holds total) :
    ∃ events filled summary, mergeAll policy store results = (events, .ok (filled, summary)) ∧
      filled.Holds fun e => contributions results e + total e := by
  obtain ⟨events, m, hrun, hm⟩ := Merging.run_holds (m := { store }) results.length hw hin hp hs
  simp only [mergeAll, hrun]
  exact ⟨_, _, _, rfl, hm⟩

end Build

end Ridership
