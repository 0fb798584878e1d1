import Ridership.Build.Prepare
import Ridership.Proofs.Store.Counting

/-!
# Filling a store

Whatever a store is filled from, only its counters change: it is flushed to the file that it was
created with, and has a counter for every edge as before. Along the way it is said once what a
merging has done that was not ended; the other facts about mergings rest on that.
-/

namespace Ridership.Build

open Store (Recounts)

variable {policy : FailurePolicy} {total : Nat} {m m' : Merging} {r : Result}
  {results : List Result} {events : List Event} {store filled : Store} {summary : Summary}
  {edges : Way.EdgeMap} {table : Way.Table}

namespace Merging

/-- A result that is taken in has counts that are merged, or it is that of a failed track, which
the policy lets be noted. -/
theorem step_eq_ok (h : m.step policy total r = (events, .ok m')) :
    (∃ path counts store sum, r = (path, .ok counts) ∧ m.store.merge counts = (store, .ok sum) ∧
      m' = { m with store, merged := m.merged + 1, increments := m.increments + sum } ∧
      events = [.merged ⟨m'.done, total, m'.increments⟩]) ∨
    ∃ path failure, r = (path, .error failure) ∧ policy = .bestEffort ∧
      m' = { m with failures := (path, failure) :: m.failures } ∧
      events = [.failed path failure] := by
  obtain ⟨path, failure | counts⟩ := r
  · cases policy with
    | abortOnFirstError => cases h
    | bestEffort =>
      cases h
      exact .inr ⟨path, failure, rfl, rfl, rfl, rfl⟩
  · rcases hmerge : m.store.merge counts with ⟨store, misuse | sum⟩
    · simp only [step, hmerge] at h
      cases h
    · simp only [step, hmerge] at h
      cases h
      exact .inl ⟨path, counts, store, sum, rfl, hmerge, rfl, rfl⟩

/-- Results are all taken in if the first one is, and then the others are. -/
theorem run_cons_eq_ok {rest : List Result}
    (h : run policy total m (r :: rest) = (events, .ok m')) :
    ∃ first m₁ more, m.step policy total r = (first, .ok m₁) ∧
      run policy total m₁ rest = (more, .ok m') ∧ events = first ++ more := by
  rcases hstep : m.step policy total r with ⟨first, halt | m₁⟩
  · simp only [run, hstep] at h
    cases h
  · rcases hrest : run policy total m₁ rest with ⟨more, result⟩
    simp only [run, hstep, hrest] at h
    cases h
    exact ⟨first, m₁, more, rfl, hrest, rfl⟩

/-- A result that is taken in leaves the file of the store and the number of its counters. -/
theorem recounts_step (h : m.step policy total r = (events, .ok m')) :
    Recounts m.store m'.store := by
  rcases step_eq_ok h with ⟨path, counts, store, sum, -, hmerge, rfl, -⟩ | ⟨_, _, -, -, rfl, -⟩
  · have hr : Recounts m.store (m.store.merge counts).1 := Store.recounts_merge counts
    rwa [hmerge] at hr
  · exact .refl

theorem recounts_run (h : run policy total m results = (events, .ok m')) :
    Recounts m.store m'.store := by
  induction results generalizing m events with
  | nil =>
    cases h
    exact .refl
  | cons r rest ih =>
    obtain ⟨_, m₁, _, hstep, hrest, -⟩ := run_cons_eq_ok h
    exact (recounts_step hstep).trans (ih hrest)

end Merging

theorem mergeAll_eq_ok (h : mergeAll policy store results = (events, .ok (filled, summary))) :
    ∃ more m, Merging.run policy results.length { store } results = (more, .ok m) ∧
      filled = m.store ∧ summary = m.summary results.length ∧
      events = more ++ [.finished summary] := by
  rcases hrun : Merging.run policy results.length { store } results with ⟨more, halt | m⟩
  · simp only [mergeAll, hrun] at h
    cases h
  · simp only [mergeAll, hrun] at h
    cases h
    exact ⟨more, m, rfl, rfl, rfl, rfl⟩

theorem recounts_mergeAll
    (h : mergeAll policy store results = (events, .ok (filled, summary))) :
    Recounts store filled := by
  obtain ⟨_, m, hrun, rfl, -, -⟩ := mergeAll_eq_ok h
  exact Merging.recounts_run hrun

namespace Source

theorem recounts_joinEdge {acc acc' : Store × Summary} {e : EdgeId}
    (h : joinEdge edges table acc e = .ok acc') : Recounts acc.1 acc'.1 := by
  by_cases hn : popularityOf edges table e = 0
  · simp only [joinEdge, hn, if_true] at h
    cases h
    exact .refl
  · simp only [joinEdge, hn, if_false] at h
    obtain ⟨store, hset, rfl⟩ := map_eq_ok h
    exact Store.recounts_set hset

theorem recounts_joinEdges {ids : List Nat} {acc acc' : Store × Summary}
    (h : ids.foldlM (fun acc e => joinEdge edges table acc (UInt32.ofNat e)) acc = .ok acc') :
    Recounts acc.1 acc'.1 := by
  induction ids generalizing acc with
  | nil =>
    cases h
    exact .refl
  | cons e rest ih =>
    rw [List.foldlM_cons] at h
    obtain ⟨acc₁, hjoin, hrest⟩ := bind_eq_ok h
    exact (recounts_joinEdge hjoin).trans (ih hrest)

theorem recounts_fill {sched : Scheduling} {d : Disk} {source : Source}
    (h : source.fill sched d store = (events, .ok (filled, summary))) : Recounts store filled := by
  cases source with
  | tracks folder matcher policy =>
    simp only [fill, fillFromTracks] at h
    split at h
    · cases h
    · split at h
      · cases h
      · exact recounts_mergeAll h
  | ways file edges =>
    simp only [fill, fillFromWays] at h
    split at h
    · cases h
    · split at h
      · cases h
      · next hjoin =>
        cases h
        exact recounts_joinEdges hjoin

end Source

theorem recounts_fillFrom {sched : Scheduling} {d : Disk} {source : Option Source}
    (h : fillFrom sched d store source = (events, .ok (filled, summary))) :
    Recounts store filled := by
  cases source with
  | none =>
    cases h
    exact .refl
  | some source => exact Source.recounts_fill h

end Ridership.Build
