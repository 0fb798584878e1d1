import Ridership.Proofs.Build.Accounts
import Ridership.Proofs.Disk.PathOrder

/-!
# What a build reports

Every result that is taken in is reported by one event, in the order of arrival, with counters that
follow from the results so far. A merging that a failed track ends reports nothing behind it. One
that comes to its end reports its summary last, and the summary follows from the results as well:
the tracks left out are named in the order of their paths, part by part and not letter by letter,
however they arrived, and the increments are what the counters of a new store add up to unless one
of them is full.
-/

namespace Ridership

namespace Store

variable {s t : Store} {e : EdgeId} {n : UInt32} {counts : List (EdgeId × UInt32)} {sum : Nat}

theorem lt_of_add (h : s.add e n = .ok t) : e.toNat < s.records.size := by
  unfold add at h
  split at h
  · cases h
  · obtain ⟨old, -, hset⟩ := bind_eq_ok h
    exact (set_eq_ok hset).2.1

/-- Counts that are merged are counts of edges of the store. -/
theorem lt_of_merge (h : s.merge counts = (t, .ok sum)) :
    ∀ c ∈ counts, c.1.toNat < s.records.size := by
  induction counts generalizing s sum with
  | nil => exact fun c hc => absurd hc List.not_mem_nil
  | cons c rest ih =>
    obtain ⟨e, n⟩ := c
    unfold merge at h
    split at h
    · cases h
    · next s' hadd =>
      rcases hm : s'.merge rest with ⟨u, misuse | more⟩
      · simp only [hm] at h
        cases h
      · simp only [hm] at h
        cases h
        intro c hc
        rcases List.mem_cons.mp hc with rfl | hc
        · exact lt_of_add hadd
        · rw [← (recounts_add hadd).size_eq]
          exact ih hm c hc

end Store

namespace Build

variable {policy : FailurePolicy} {total : Nat} {m m' : Merging} {r : Result}
  {taken rest results : List Result} {events more : List Event} {store : Store}

/-! ## What results say -/

/-- The sum of the counts of a result. -/
def incrementsOf (r : Result) : Nat :=
  match r.2 with
  | .ok counts => (counts.map fun c => c.2.toNat).sum
  | .error _ => 0

def incrementsIn (results : List Result) : Nat :=
  (results.map incrementsOf).sum

/-- The track of a result and why it failed, if it did. -/
def failureOf? : Result → Option (String × Failure)
  | (path, .error failure) => some (path, failure)
  | (_, .ok _) => none

/-- The tracks that failed, in the order of arrival. -/
def failuresIn (results : List Result) : List (String × Failure) :=
  results.filterMap failureOf?

/-- The event that reports a result which arrives after others. -/
def eventOf (total : Nat) (before : List Result) (r : Result) : Event :=
  match r with
  | (_, .ok _) => .merged ⟨before.length + 1, total, incrementsIn (before ++ [r])⟩
  | (path, .error failure) => .failed path failure

/-- What a path is compared by. Two spellings of one path have the same key. -/
def sortKey (path : String) : List Bytes :=
  Disk.Path.order (bytesOf path)

/-- The events report the results that arrive after those already taken in, one for each. -/
structure Reports (total : Nat) (taken results : List Result) (events : List Event) : Prop where
  length_eq : events.length = results.length
  event : ∀ before r after, results = before ++ r :: after →
    events[before.length]? = some (eventOf total (taken ++ before) r)

theorem Reports.nil : Reports total taken [] [] :=
  ⟨rfl, fun before r after h => by simp at h⟩

theorem Reports.cons (h : Reports total (taken ++ [r]) rest more) :
    Reports total taken (r :: rest) (eventOf total taken r :: more) := by
  refine ⟨by rw [List.length_cons, List.length_cons, h.length_eq], fun before r' after hsplit => ?_⟩
  cases before with
  | nil =>
    cases hsplit
    rw [List.append_nil]
    rfl
  | cons first others =>
    cases hsplit
    rw [List.length_cons, List.getElem?_cons_succ, h.event others r' after rfl, List.append_assoc]
    rfl

theorem Reports.snoc (h : Reports total taken results events) :
    Reports total taken (results ++ [r]) (events ++ [eventOf total (taken ++ results) r]) := by
  refine ⟨by simp [h.length_eq], fun before r' after hsplit => ?_⟩
  rcases List.eq_nil_or_concat after with rfl | ⟨others, last, rfl⟩
  · obtain ⟨rfl, hr⟩ := List.append_inj' hsplit rfl
    cases hr
    rw [← h.length_eq, List.getElem?_concat_length]
  · rw [List.concat_eq_append, ← List.cons_append, ← List.append_assoc] at hsplit
    obtain ⟨hresults, -⟩ := List.append_inj' hsplit rfl
    have hlt : before.length < events.length := by
      rw [h.length_eq, hresults, List.length_append, List.length_cons]
      omega
    rw [List.getElem?_append_left hlt, h.event before r' others hresults]

theorem Reports.getElem?_eq (h : Reports total taken results events) {k : Nat}
    (hk : k < results.length) :
    events[k]? = some (eventOf total (taken ++ results.take k) results[k]) := by
  have hsplit : results = results.take k ++ results[k] :: results.drop (k + 1) := by simp
  have hevent := h.event _ _ _ hsplit
  rwa [List.length_take_of_le (Nat.le_of_lt hk)] at hevent

theorem Reports.not_finished (h : Reports total taken results events) (s : Summary) :
    .finished s ∉ events := by
  intro hmem
  obtain ⟨k, hk, hget⟩ := List.getElem_of_mem hmem
  have hlt : k < results.length := h.length_eq ▸ hk
  have hevent := h.getElem?_eq hlt
  rw [List.getElem?_eq_getElem hk, hget, Option.some.injEq] at hevent
  rcases hr : results[k] with ⟨path, failure | counts⟩ <;> simp [hr, eventOf] at hevent

/-! ## Taking results in -/

namespace Merging

/-- A merging that has taken in these results: its numbers and failures are theirs. -/
structure Took (m : Merging) (taken : List Result) : Prop where
  done_eq : m.done = taken.length
  increments_eq : m.increments = incrementsIn taken
  failures_eq : m.failures.reverse = failuresIn taken

theorem took_nothing (store : Store) : Took { store } [] :=
  ⟨rfl, rfl, rfl⟩

/-- A result that is taken in counts, and is reported. -/
theorem step_took (hm : m.Took taken) (h : m.step policy total r = (events, .ok m')) :
    m'.Took (taken ++ [r]) ∧ events = [eventOf total taken r] ∧
      InRange m.store.records.size r := by
  have hdone := hm.done_eq
  rcases step_eq_ok h with ⟨path, counts, store, sum, rfl, hmerge, rfl, rfl⟩ |
    ⟨path, failure, rfl, -, rfl, rfl⟩
  · have hincrements : m.increments + sum = incrementsIn (taken ++ [(path, .ok counts)]) := by
      simp [incrementsIn, hm.increments_eq, incrementsOf, Store.merge_sum hmerge]
    have hlength : m.merged + 1 + m.failures.length = taken.length + 1 := by
      rw [← hdone, done]
      omega
    refine ⟨⟨?_, hincrements, ?_⟩, ?_, ?_⟩
    · rw [List.length_append, List.length_singleton]
      exact hlength
    · simp [failuresIn, hm.failures_eq, failureOf?]
    · simp only [eventOf, ← hincrements, ← hlength, done]
    · rintro counts' hcounts
      cases hcounts
      exact Store.lt_of_merge hmerge
  · refine ⟨⟨?_, ?_, ?_⟩, rfl, fun counts hcounts => by cases hcounts⟩
    · rw [List.length_append, List.length_singleton, ← hdone, done, done, List.length_cons]
      rfl
    · simp [incrementsIn, hm.increments_eq, incrementsOf]
    · simp [failuresIn, hm.failures_eq, failureOf?]

/-- Results that are all taken in count, and each of them is reported. -/
theorem run_took (hm : m.Took taken) (h : run policy total m results = (events, .ok m')) :
    m'.Took (taken ++ results) ∧ Reports total taken results events ∧
      ∀ r ∈ results, InRange m.store.records.size r := by
  induction results generalizing m taken events with
  | nil =>
    cases h
    rw [List.append_nil]
    exact ⟨hm, .nil, fun r hr => absurd hr List.not_mem_nil⟩
  | cons r rest ih =>
    obtain ⟨first, m₁, more, hstep, hrest, rfl⟩ := run_cons_eq_ok h
    obtain ⟨hm₁, rfl, hr⟩ := step_took hm hstep
    obtain ⟨hm', hreports, hin⟩ := ih hm₁ hrest
    rw [List.append_assoc] at hm'
    refine ⟨hm', hreports.cons, fun r' hr' => ?_⟩
    rcases List.mem_cons.mp hr' with rfl | hr'
    · exact hr
    · rw [← (recounts_step hstep).size_eq]
      exact hin r' hr'

end Merging

/-! ## The summary -/

/-- The summary of a merging that has taken in all results follows from them and from the store. -/
structure Summarizes (results : List Result) (filled : Store) (summary : Summary) : Prop where
  total_eq : summary.total = results.length
  accounted : summary.merged + summary.failures.length = summary.total
  failures_perm : summary.failures.Perm (failuresIn results)
  failures_sorted : summary.failures.Pairwise fun a b => sortKey a.1 ≤ sortKey b.1
  /-- The order is strict unless a path was given twice. -/
  failures_strict : (results.map fun r => sortKey r.1).Nodup →
    summary.failures.Pairwise fun a b => sortKey a.1 < sortKey b.1
  increments_eq : summary.increments = incrementsIn results
  ridden_eq : summary.ridden = filled.records.toList.countP (0 < ·)

theorem nodup_failuresIn (h : (results.map fun r => sortKey r.1).Nodup) :
    ((failuresIn results).map fun f => sortKey f.1).Nodup := by
  refine h.sublist ?_
  induction results with
  | nil => exact .slnil
  | cons r rest ih =>
    obtain ⟨path, failure | counts⟩ := r
    · exact (ih (List.nodup_cons.mp h).2).cons_cons (sortKey path)
    · exact (ih (List.nodup_cons.mp h).2).cons (sortKey path)

theorem Merging.Took.summarizes (h : m.Took results) :
    Summarizes results m.store (m.summary results.length) where
  total_eq := rfl
  accounted := by
    rw [Merging.summary, List.length_mergeSort, List.length_reverse]
    exact h.done_eq
  failures_perm := by
    rw [← h.failures_eq]
    exact List.mergeSort_perm _ _
  failures_sorted := Disk.Path.pairwise_mergeSort (fun f : String × Failure => bytesOf f.1) _
  failures_strict hdistinct := by
    refine Disk.Path.strict_mergeSort (fun f : String × Failure => bytesOf f.1) ?_
    rw [h.failures_eq]
    exact nodup_failuresIn hdistinct
  increments_eq := h.increments_eq
  ridden_eq := rfl

/-- The failures of a summary do not depend on the order of arrival. -/
theorem Summarizes.failures_eq {results' : List Result} {filled filled' : Store}
    {summary summary' : Summary} (h : Summarizes results filled summary)
    (h' : Summarizes results' filled' summary') (hperm : results'.Perm results)
    (hdistinct : (results.map fun r => sortKey r.1).Nodup) :
    summary'.failures = summary.failures := by
  have hdistinct' : (results'.map fun r => sortKey r.1).Nodup :=
    (hperm.map _).nodup_iff.mpr hdistinct
  have hfailures : summary'.failures.Perm summary.failures :=
    h'.failures_perm.trans ((hperm.filterMap failureOf?).trans h.failures_perm.symm)
  exact Disk.Path.eq_of_strict (fun f : String × Failure => bytesOf f.1) hfailures
    (h.failures_strict hdistinct) (h'.failures_strict hdistinct')

/-- A new store adds up to the increments unless an edge was given more than a counter holds. -/
theorem sum_records_of_mergeAll {n : Nat} {filled : Store} {summary : Summary}
    (hfresh : store.Fresh n) (hin : ∀ r ∈ results, InRange n r)
    (h : mergeAll policy store results = (events, .ok (filled, summary))) :
    (filled.records.toList.map UInt32.toNat).sum ≤ summary.increments ∧
      ((filled.records.toList.map UInt32.toNat).sum = summary.increments ↔
        ∀ e : EdgeId, e.toNat < n → contributions results e ≤ maxCount) := by
  obtain ⟨haccounts, -⟩ := mergeAll_accounts hfresh hin h
  have hsize : filled.records.size = n := (recounts_mergeAll h).size_eq.trans hfresh.size_eq
  have hmax : filled.records.size ≤ UInt32.size := hsize ▸ hfresh.bounded
  refine ⟨haccounts.sum_le hmax, ?_⟩
  rw [haccounts.sum_eq_iff hmax, hsize]

/-! ## Every arrival -/

/-- A failed track that is not tolerated is the first one, and is reported last. -/
theorem reports_of_failed {f : Failure}
    (h : mergeAll policy store results = (events, .error (.failed f))) :
    policy = .abortOnFirstError ∧
      ∃ before path failure after, results = before ++ (path, .error failure) :: after ∧
        (∀ r ∈ before, ∃ counts, r.2 = .ok counts) ∧ f = .trackFile path failure ∧
        Reports results.length [] (before ++ [(path, .error failure)]) events := by
  obtain ⟨before, r, after, m₁, first, last, hsplit, hbefore, hlast, rfl⟩ :=
    Merging.run_eq_error (run_of_mergeAll_error h)
  obtain ⟨-, hreports, -⟩ := Merging.run_took (Merging.took_nothing store) hbefore
  rcases Merging.step_eq_error hlast with ⟨path, failure, rfl, hpolicy, hf, rfl⟩ |
    ⟨_, _, _, -, hmisused, -⟩
  · cases hf
    refine ⟨hpolicy, before, path, failure, after, hsplit, fun r hr => ?_, rfl, hreports.snoc⟩
    refine (Merging.tolerated_of_run hbefore r hr).resolve_left fun hbest => ?_
    rw [hpolicy] at hbest
    cases hbest
  · cases hmisused

/-- Counts that the store does not take are not reported, and nothing after them is. -/
theorem reports_of_misused {misuse : Misuse}
    (h : mergeAll policy store results = (events, .error (.misused misuse))) :
    ∃ before path counts after, results = before ++ (path, .ok counts) :: after ∧
      Reports results.length [] before events := by
  obtain ⟨before, r, after, m₁, first, last, hsplit, hbefore, hlast, rfl⟩ :=
    Merging.run_eq_error (run_of_mergeAll_error h)
  obtain ⟨-, hreports, -⟩ := Merging.run_took (Merging.took_nothing store) hbefore
  rcases Merging.step_eq_error hlast with ⟨_, _, -, -, hf, -⟩ | ⟨path, counts, _, rfl, -, rfl⟩
  · cases hf
  · rw [List.append_nil]
    exact ⟨before, path, counts, after, hsplit, hreports⟩

/-- Results that are all taken in are all reported, and then their summary is. -/
theorem reports_of_ok {filled : Store} {summary : Summary}
    (h : mergeAll policy store results = (events, .ok (filled, summary))) :
    (∃ reports, events = reports ++ [.finished summary] ∧
      Reports results.length [] results reports) ∧
    Summarizes results filled summary ∧ ∀ r ∈ results, InRange store.records.size r := by
  obtain ⟨reports, m, hrun, rfl, rfl, rfl⟩ := mergeAll_eq_ok h
  obtain ⟨hm, hreports, hin⟩ := Merging.run_took (Merging.took_nothing store) hrun
  exact ⟨⟨reports, rfl, hreports⟩, hm.summarizes, hin⟩

theorem mergeAll_ok_iff {result : Except Halt (Store × Summary)}
    (h : mergeAll policy store results = (events, result)) (hw : store.readOnly = false)
    (hin : ∀ r ∈ results, InRange store.records.size r) :
    (∃ filled summary, result = .ok (filled, summary)) ↔ ∀ r ∈ results, Tolerated policy r := by
  constructor
  · rintro ⟨filled, summary, rfl⟩
    obtain ⟨_, m, hrun, -⟩ := mergeAll_eq_ok h
    exact Merging.tolerated_of_run hrun
  · intro hp
    obtain ⟨_, filled, summary, hmerge, -⟩ := mergeAll_holds hw hin hp (Store.holds_self store)
    rw [h] at hmerge
    cases hmerge
    exact ⟨filled, summary, rfl⟩

/-- Whatever results arrive in whatever order, each one that is taken in is reported by one event
with the number of results and the sum of their counts so far, or with the track that failed. The
first failed track that is not tolerated is reported last; no summary follows it. When all results
are taken in, the summary is reported last and once, and has their numbers; its failures are those
of the results, in the order of their paths and not of their arrival. The counters of a new store
add up to its increments, unless an edge was given more than a counter holds; then to less. -/
theorem every_result_is_reported {result : Except Halt (Store × Summary)}
    (h : mergeAll policy store results = (events, result)) :
    (∀ f, result = .error (.failed f) → policy = .abortOnFirstError ∧
      (∀ s, .finished s ∉ events) ∧
      ∃ before path failure after, results = before ++ (path, .error failure) :: after ∧
        (∀ r ∈ before, ∃ counts, r.2 = .ok counts) ∧ f = .trackFile path failure ∧
        Reports results.length [] (before ++ [(path, .error failure)]) events) ∧
    (∀ misuse, result = .error (.misused misuse) → (∀ s, .finished s ∉ events) ∧
      ∃ before path counts after, results = before ++ (path, .ok counts) :: after ∧
        Reports results.length [] before events) ∧
    (∀ filled summary, result = .ok (filled, summary) →
      (∃ reports, events = reports ++ [.finished summary] ∧ (∀ s, .finished s ∉ reports) ∧
        Reports results.length [] results reports) ∧
      Summarizes results filled summary ∧
      ((results.map fun r => sortKey r.1).Nodup → ∀ others, others.Perm results →
        ∀ events' filled' summary',
          mergeAll policy store others = (events', .ok (filled', summary')) →
            summary'.failures = summary.failures) ∧
      ∀ n, store.Fresh n → (filled.records.toList.map UInt32.toNat).sum ≤ summary.increments ∧
        ((filled.records.toList.map UInt32.toNat).sum = summary.increments ↔
          ∀ e : EdgeId, e.toNat < n → contributions results e ≤ maxCount)) ∧
    (store.readOnly = false → (∀ r ∈ results, InRange store.records.size r) →
      ((∃ filled summary, result = .ok (filled, summary)) ↔ ∀ r ∈ results, Tolerated policy r) ∧
        ∀ misuse, result ≠ .error (.misused misuse)) := by
  refine ⟨?_, ?_, ?_, fun hw hin => ⟨mergeAll_ok_iff h hw hin, ?_⟩⟩
  · rintro f rfl
    obtain ⟨hpolicy, before, path, failure, after, hsplit, hok, hf, hreports⟩ :=
      reports_of_failed h
    exact ⟨hpolicy, hreports.not_finished, before, path, failure, after, hsplit, hok, hf, hreports⟩
  · rintro misuse rfl
    obtain ⟨before, path, counts, after, hsplit, hreports⟩ := reports_of_misused h
    exact ⟨hreports.not_finished, before, path, counts, after, hsplit, hreports⟩
  · rintro filled summary rfl
    obtain ⟨⟨reports, hevents, hreports⟩, hsummary, hin⟩ := reports_of_ok h
    refine ⟨⟨reports, hevents, hreports.not_finished, hreports⟩, hsummary,
      fun hdistinct others hperm events' filled' summary' h' => ?_, fun n hfresh => ?_⟩
    · exact hsummary.failures_eq (reports_of_ok h').2.1 hperm hdistinct
    · rw [hfresh.size_eq] at hin
      exact sum_records_of_mergeAll hfresh hin h
  · rintro misuse rfl
    exact mergeAll_not_misused hw hin h

/-- The results of four tracks, two of them without points. -/
def fourResults : List Result :=
  [("b", .ok [(0, 0xffffffff), (1, 1)]), ("a.b", .error (.malformedTrack "a.b" .noPoints)),
    ("a/b", .error (.malformedTrack "a/b" .noPoints)), ("c", .ok [(0, 2)])]

/-- The tracks without points, in the order of their paths. -/
def leftOut : List (String × Failure) :=
  [("a/b", .malformedTrack "a/b" .noPoints), ("a.b", .malformedTrack "a.b" .noPoints)]

theorem perm_leftOut : (failuresIn fourResults).Perm leftOut :=
  .swap _ _ []

/-- The counter of the first edge is full before the last track adds to it. The track in the folder
`a` is named before the one beside it, though it arrives later and a dot is less than a slash. -/
theorem reports_of_four_results :
    ∃ filled summary,
      mergeAll .bestEffort ⟨"index", 0, Array.replicate 2 0, false⟩ fourResults =
        ([.merged ⟨1, 4, 4294967296⟩, .failed "a.b" (.malformedTrack "a.b" .noPoints),
          .failed "a/b" (.malformedTrack "a/b" .noPoints), .merged ⟨4, 4, 4294967298⟩,
          .finished summary], .ok (filled, summary)) ∧
      summary.failures = leftOut ∧ summary.increments = 4294967298 ∧
      (filled.records.toList.map UInt32.toNat).sum < summary.increments := by
  have hmerge : mergeAll .bestEffort ⟨"index", 0, Array.replicate 2 0, false⟩ fourResults =
    _ := rfl
  obtain ⟨-, -, hok, -⟩ := every_result_is_reported hmerge
  obtain ⟨-, hsummary, -, hsum⟩ := hok _ _ rfl
  obtain ⟨hle, hfull⟩ := hsum 2 ⟨rfl, rfl, by decide⟩
  have hdistinct : (fourResults.map fun r => sortKey r.1).Nodup := by decide +kernel
  have hordered : leftOut.Pairwise fun a b => sortKey a.1 < sortKey b.1 :=
    List.pairwise_pair.mpr (by decide +kernel)
  have hfailures := Disk.Path.eq_of_strict (fun f : String × Failure => bytesOf f.1)
    (hsummary.failures_perm.trans perm_leftOut) hordered (hsummary.failures_strict hdistinct)
  refine ⟨_, _, hmerge, hfailures, hsummary.increments_eq,
    lt_of_le_of_ne hle fun heq => ?_⟩
  exact absurd (hfull.mp heq 0 (by decide)) (by decide)

end Build

end Ridership
