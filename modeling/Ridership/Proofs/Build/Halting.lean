import Ridership.Proofs.Build.Totals

/-!
# When a merging ends early

A merging takes in results until one of them ends it, and then the results behind it make no
difference. A failed track ends it only where the policy is to abort, and the failure that it ends
with names that track and why it failed. Counts of edges that a store has never end it.
-/

namespace Ridership.Build

open Store (Recounts)

variable {policy : FailurePolicy} {n : Nat} {m m' : Merging} {r : Result}
  {results rest : List Result} {events : List Event} {f : Failure} {misuse : Misuse} {h : Halt}

namespace Merging

/-! ## One result -/

theorem tolerated_of_step (hs : m.step policy n r = (events, .ok m')) : Tolerated policy r := by
  rcases step_eq_ok hs with ⟨_, counts, _, _, rfl, -⟩ | ⟨_, _, -, hp, -⟩
  · exact .inr ⟨counts, rfl⟩
  · exact .inl hp

/-- A result that ends the merging is that of a failed track, which is reported, or it has counts
that the store does not take. -/
theorem step_eq_error (hs : m.step policy n r = (events, .error h)) :
    (∃ path failure, r = (path, .error failure) ∧ policy = .abortOnFirstError ∧
      h = .failed (.trackFile path failure) ∧ events = [.failed path failure]) ∨
    ∃ path counts misuse, r = (path, .ok counts) ∧ h = .misused misuse ∧ events = [] := by
  obtain ⟨path, failure | counts⟩ := r
  · cases policy with
    | abortOnFirstError =>
      cases hs
      exact .inl ⟨path, failure, rfl, rfl, rfl, rfl⟩
    | bestEffort => cases hs
  · rcases hmerge : m.store.merge counts with ⟨store, misuse | sum⟩
    · simp only [step, hmerge] at hs
      cases hs
      exact .inr ⟨path, counts, misuse, rfl, rfl, rfl⟩
    · simp only [step, hmerge] at hs
      cases hs

/-- A result that ends the merging as failed is that of a failed track, and aborting is the
policy. -/
theorem step_failed (hs : m.step policy n r = (events, .error (.failed f))) :
    policy = .abortOnFirstError ∧ ∃ g, r.2 = .error g ∧ f = .trackFile r.1 g := by
  rcases step_eq_error hs with ⟨path, failure, rfl, hp, hf, -⟩ | ⟨_, _, _, -, hmisused, -⟩
  · cases hf
    exact ⟨hp, failure, rfl, rfl⟩
  · cases hmisused

/-- Counts of edges of a store that can be written to are never a misuse of it. -/
theorem step_not_misused (hw : m.store.readOnly = false) (hin : InRange m.store.records.size r) :
    m.step policy n r ≠ (events, .error (.misused misuse)) := by
  intro hs
  rcases step_eq_error hs with ⟨_, _, -, -, hfailed, -⟩ | ⟨path, counts, _, rfl, -, -⟩
  · cases hfailed
  · obtain ⟨events', m', hok, -⟩ :=
      step_holds n hw hin (.inr ⟨counts, rfl⟩) (Store.holds_self m.store)
    rw [hok] at hs
    cases hs

/-! ## Many results -/

/-- Results end the merging at the first one, or the first one is taken in and the others end it. -/
theorem run_cons_eq_error (hr : run policy n m (r :: rest) = (events, .error h)) :
    m.step policy n r = (events, .error h) ∨
      ∃ first m₁ more, m.step policy n r = (first, .ok m₁) ∧
        run policy n m₁ rest = (more, .error h) ∧ events = first ++ more := by
  rcases hs : m.step policy n r with ⟨first, halt | m₁⟩
  · simp only [run, hs] at hr
    cases hr
    exact .inl rfl
  · rcases ho : run policy n m₁ rest with ⟨more, result⟩
    simp only [run, hs, ho] at hr
    cases hr
    exact .inr ⟨first, m₁, more, rfl, ho, rfl⟩

/-- A merging that is ended takes in the results before one that ends it. -/
theorem run_eq_error (hr : run policy n m results = (events, .error h)) :
    ∃ before r after m₁ first last, results = before ++ r :: after ∧
      run policy n m before = (first, .ok m₁) ∧ m₁.step policy n r = (last, .error h) ∧
      events = first ++ last := by
  induction results generalizing m events with
  | nil => cases hr
  | cons r rest ih =>
    rcases run_cons_eq_error hr with hstep | ⟨first, m₁, more, hstep, hrest, rfl⟩
    · exact ⟨[], r, rest, m, [], events, rfl, rfl, hstep, rfl⟩
    · obtain ⟨before, r', after, m₂, others, last, rfl, hbefore, hlast, rfl⟩ := ih hrest
      refine ⟨r :: before, r', after, m₂, first ++ others, last, rfl, ?_, hlast, ?_⟩
      · simp only [run, hstep, hbefore]
      · rw [List.append_assoc]

theorem run_append_of_error (hr : run policy n m results = (events, .error h)) :
    run policy n m (results ++ rest) = (events, .error h) := by
  induction results generalizing m events with
  | nil => cases hr
  | cons first others ih =>
    rcases run_cons_eq_error hr with hs | ⟨before, m₁, more, hs, ho, rfl⟩
    · simp only [List.cons_append, run, hs]
    · simp only [List.cons_append, run, hs, ih ho]

theorem run_append_of_ok (hr : run policy n m results = (events, .ok m')) :
    run policy n m (results ++ rest) =
      (events ++ (run policy n m' rest).1, (run policy n m' rest).2) := by
  induction results generalizing m events with
  | nil =>
    cases hr
    rfl
  | cons first others ih =>
    obtain ⟨before, m₁, more, hs, ho, rfl⟩ := run_cons_eq_ok hr
    simp only [List.cons_append, run, hs, ih ho, List.append_assoc]

/-- After results that did not end the merging, the next one is a step of its own. -/
theorem run_snoc (hr : run policy n m results = (events, .ok m')) (r : Result) :
    run policy n m (results ++ [r]) =
      (events ++ (m'.step policy n r).1, (m'.step policy n r).2) := by
  have hlast : run policy n m' [r] = m'.step policy n r := by
    rcases hs : m'.step policy n r with ⟨more, halt | m₁⟩
    · simp only [run, hs]
    · simp only [run, hs, List.append_nil]
  rw [run_append_of_ok hr, hlast]

theorem tolerated_of_run (hr : run policy n m results = (events, .ok m')) :
    ∀ r ∈ results, Tolerated policy r := by
  induction results generalizing m events with
  | nil => exact fun r hmem => absurd hmem List.not_mem_nil
  | cons first others ih =>
    obtain ⟨_, m₁, _, hs, ho, -⟩ := run_cons_eq_ok hr
    intro r hmem
    rcases List.mem_cons.mp hmem with rfl | hmem
    · exact tolerated_of_step hs
    · exact ih ho r hmem

/-- A merging that ends as failed was given a failed track to end with. -/
theorem run_failed (hr : run policy n m results = (events, .error (.failed f))) :
    policy = .abortOnFirstError ∧ ∃ r ∈ results, ∃ g, r.2 = .error g ∧ f = .trackFile r.1 g := by
  obtain ⟨before, r, after, m₁, _, _, rfl, -, hlast, -⟩ := run_eq_error hr
  obtain ⟨hp, hfailed⟩ := step_failed hlast
  exact ⟨hp, r, List.mem_append_right _ List.mem_cons_self, hfailed⟩

theorem run_not_misused (hw : m.store.readOnly = false)
    (hin : ∀ r ∈ results, InRange m.store.records.size r) :
    run policy n m results ≠ (events, .error (.misused misuse)) := by
  intro hr
  obtain ⟨before, r, after, m₁, _, _, rfl, hbefore, hlast, -⟩ := run_eq_error hr
  have hkept : Recounts m.store m₁.store := recounts_run hbefore
  refine step_not_misused (hkept.readOnly_eq.trans hw) ?_ hlast
  rw [hkept.size_eq]
  exact hin r (List.mem_append_right _ List.mem_cons_self)

end Merging

theorem run_of_mergeAll_error {store : Store}
    (hm : mergeAll policy store results = (events, .error h)) :
    Merging.run policy results.length { store } results = (events, .error h) := by
  rcases hrun : Merging.run policy results.length { store } results with ⟨more, halt | m⟩
  · simp only [mergeAll, hrun] at hm
    cases hm
    rfl
  · simp only [mergeAll, hrun] at hm
    cases hm

theorem mergeAll_not_misused {store : Store} (hw : store.readOnly = false)
    (hin : ∀ r ∈ results, InRange store.records.size r) :
    mergeAll policy store results ≠ (events, .error (.misused misuse)) := fun hm =>
  Merging.run_not_misused (m := { store }) hw hin (run_of_mergeAll_error hm)

end Ridership.Build
