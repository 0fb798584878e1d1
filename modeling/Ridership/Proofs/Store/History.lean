import Ridership.Proofs.Store.Calls
import Ridership.Proofs.Store.Creation

/-!
# The history of a store

After any calls, the counter of an edge is what it was last set to and all that was added to it
since, as far as counters go. So what happened to other edges does not matter, nor what happened
before the edge was set, nor in which order the counts of a tally were visited. A store that was
loaded refuses every change, and neither it nor its file is ever another.
-/

namespace Ridership.Store

variable {s t u : Store} {d : Disk} {e : EdgeId} {n : UInt32} {total : EdgeId → Nat} {c : Call}
  {calls : List Call} {counts : List (EdgeId × UInt32)}

/-! ## What calls count -/

namespace Call

/-- What a call adds to the counter of an edge. -/
def given (e : EdgeId) : Call → Nat
  | .add e' n => if e' = e then n.toNat else 0
  | .merge counts => added counts e
  | .set _ _ | .get _ | .popularity _ | .flush => 0

/-- The totals after a call. -/
def retotal (total : EdgeId → Nat) : Call → EdgeId → Nat
  | .set e n => fun e' => if e = e' then n.toNat else total e'
  | c => fun e' => c.given e' + total e'

/-- A tally has counts only for edges of the network. -/
def InRange (edgeCount : Nat) : Call → Prop
  | .merge counts => ∀ c ∈ counts, c.1.toNat < edgeCount
  | .set _ _ | .add _ _ | .get _ | .popularity _ | .flush => True

/-- The single edge that a call is about. -/
def edge? : Call → Option EdgeId
  | .set e _ | .add e _ | .get e | .popularity e => some e
  | .merge _ | .flush => none

end Call

def given (e : EdgeId) (calls : List Call) : Nat :=
  (calls.map (Call.given e)).sum

theorem retotal_of_not_set (h : ∀ n, c ≠ .set e n) : c.retotal total e = c.given e + total e := by
  cases c with
  | set e' n =>
    have hne : e' ≠ e := fun heq => h n (by rw [heq])
    simp [Call.retotal, Call.given, hne]
  | add _ _ | merge _ | get _ | popularity _ | flush => rfl

/-- As long as an edge is not set, its total grows by what it is given. -/
theorem foldl_retotal (h : ∀ n, .set e n ∉ calls) :
    calls.foldl Call.retotal total e = given e calls + total e := by
  induction calls generalizing total with
  | nil => simp [given]
  | cons c rest ih =>
    have hfirst : ∀ n, c ≠ .set e n := by
      rintro n rfl
      exact h n List.mem_cons_self
    rw [List.foldl_cons, ih fun n hn => h n (List.mem_cons_of_mem _ hn), retotal_of_not_set hfirst]
    simp only [given, List.map_cons, List.sum_cons]
    omega

theorem foldl_retotal_set {before since : List Call} (hcalls : calls = before ++ .set e n :: since)
    (h : ∀ n, .set e n ∉ since) :
    calls.foldl Call.retotal total e = n.toNat + given e since := by
  rw [hcalls, List.foldl_append, List.foldl_cons, foldl_retotal h]
  simp [Call.retotal, Nat.add_comm]

/-! ## What a store holds after calls -/

theorem set_of_lt (hw : s.readOnly = false) (he : e.toNat < s.records.size) :
    s.set e n = .ok { s with records := s.records.setIfInBounds e.toNat n } := by
  unfold set
  rw [if_neg (by simp [hw])]
  exact if_pos he

theorem get_of_ge (he : s.edgeCount ≤ e.toNat) :
    s.get e = .error (.outOfRange s.edgeCount e.toNat) := by
  unfold get
  rw [Array.getElem?_eq_none he]

theorem set_of_ge (hw : s.readOnly = false) (he : s.edgeCount ≤ e.toNat) :
    s.set e n = .error (.outOfRange s.edgeCount e.toNat) := by
  unfold set
  rw [if_neg (by simp [hw])]
  exact if_neg (Nat.not_lt.mpr he)

theorem add_of_ge (hw : s.readOnly = false) (he : s.edgeCount ≤ e.toNat) :
    s.add e n = .error (.outOfRange s.edgeCount e.toNat) := by
  unfold add
  rw [if_neg (by simp [hw]), get_of_ge he]
  rfl

/-- What is counted for an edge that the store does not have makes no difference. -/
theorem Holds.congr {total' : EdgeId → Nat} (hs : s.Holds total) (he : s.records.size ≤ e.toNat)
    (h : ∀ e', e ≠ e' → total' e' = total e') : s.Holds total' := by
  intro e' he'
  have hne : e ≠ e' := by
    rintro rfl
    exact Nat.not_le.mpr he' he
  rw [h e' hne]
  exact hs e' he'

/-- An edge of the store can be set, and no other counter changes. -/
theorem set_holds (hw : s.readOnly = false) (he : e.toNat < s.records.size) (hs : s.Holds total)
    (n : UInt32) :
    ∃ t, s.set e n = .ok t ∧ t.Holds fun e' => if e = e' then n.toNat else total e' := by
  refine ⟨_, set_of_lt hw he, fun e' he' => ?_⟩
  have hlt : e'.toNat < s.records.size := by simpa using he'
  show (s.records.setIfInBounds e.toNat n)[e'.toNat].toNat =
    min maxCount (if e = e' then n.toNat else total e')
  rw [Array.getElem_setIfInBounds hlt]
  by_cases heq : e = e'
  · rw [if_pos (congrArg UInt32.toNat heq), if_pos heq, Nat.min_eq_right (toNat_le_maxCount n)]
  · rw [if_neg fun h => heq (UInt32.toNat_inj.mp h), if_neg heq]
    exact hs e' hlt

theorem set_or_kept_holds (hw : s.readOnly = false) (hs : s.Holds total) :
    (s.orKept (s.set e n)).Holds fun e' => if e = e' then n.toNat else total e' := by
  by_cases he : e.toNat < s.records.size
  · obtain ⟨t, hset, ht⟩ := set_holds hw he hs n
    rw [hset]
    exact ht
  · have hge : s.records.size ≤ e.toNat := Nat.le_of_not_lt he
    rw [set_of_ge hw hge]
    exact hs.congr hge fun e' hne => if_neg hne

theorem add_or_kept_holds (hw : s.readOnly = false) (hs : s.Holds total) :
    (s.orKept (s.add e n)).Holds fun e' => (if e = e' then n.toNat else 0) + total e' := by
  by_cases he : e.toNat < s.records.size
  · obtain ⟨t, hadd, ht⟩ := add_holds hw he hs n
    rw [hadd]
    exact ht
  · have hge : s.records.size ≤ e.toNat := Nat.le_of_not_lt he
    rw [add_of_ge hw hge]
    exact hs.congr hge fun e' hne => by rw [if_neg hne, Nat.zero_add]

/-- A call turns what the counters of a store count into what they count after it. -/
theorem after_holds (d : Disk) (hw : s.readOnly = false) (hin : c.InRange s.records.size)
    (hs : s.Holds total) : (s.after d c).1.Holds (c.retotal total) := by
  cases c with
  | set e n => exact set_or_kept_holds hw hs
  | add e n => exact add_or_kept_holds hw hs
  | merge counts =>
    obtain ⟨t, sum, hmerge, ht⟩ := merge_holds counts hw hin hs
    simp only [after, hmerge]
    exact ht
  | get _ | popularity _ | flush =>
    intro e' he'
    show _ = min maxCount (0 + total e')
    rw [Nat.zero_add]
    exact hs e' he'

theorem run_holds (d : Disk) (hw : s.readOnly = false)
    (hin : ∀ c ∈ calls, c.InRange s.records.size) (hs : s.Holds total) :
    (s.run d calls).1.Holds (calls.foldl Call.retotal total) := by
  induction calls generalizing s d total with
  | nil => exact hs
  | cons c rest ih =>
    have hr := recounts_after s d c
    have hrest : ∀ c' ∈ rest, c'.InRange (s.after d c).1.records.size := by
      intro c' hc'
      rw [hr.size_eq]
      exact hin c' (List.mem_cons_of_mem _ hc')
    exact ih _ (hr.readOnly_eq.trans hw) hrest (after_holds d hw (hin c List.mem_cons_self) hs)

/-! ## The order in which a tally is visited -/

/-- Stores of the same file that count the same are the same. -/
theorem eq_of_holds (hsize : s.records.size ≤ UInt32.size) (ht : Recounts s t)
    (hu : Recounts s u) (hst : t.Holds total) (hsu : u.Holds total) : t = u := by
  have hrecords : t.records = u.records := by
    apply Array.ext (ht.size_eq.trans hu.size_eq.symm)
    intro i hi hi'
    have hlt : i < UInt32.size := by
      rw [ht.size_eq] at hi
      exact Nat.lt_of_lt_of_le hi hsize
    have hid : (UInt32.ofNat i).toNat = i := UInt32.toNat_ofNat_of_lt hlt
    have h := hst (UInt32.ofNat i) (by rw [hid]; exact hi)
    have h' := hsu (UInt32.ofNat i) (by rw [hid]; exact hi')
    simp only [hid] at h h'
    exact UInt32.toNat_inj.mp (h.trans h'.symm)
  obtain ⟨path, file, records, readOnly⟩ := t
  obtain ⟨path', file', records', readOnly'⟩ := u
  obtain rfl : path = path' := ht.path_eq.trans hu.path_eq.symm
  obtain rfl : file = file' := ht.file_eq.trans hu.file_eq.symm
  obtain rfl : readOnly = readOnly' := ht.readOnly_eq.trans hu.readOnly_eq.symm
  exact congrArg (Store.mk path file · readOnly) hrecords

theorem merge_sum {sum : Nat} (h : s.merge counts = (t, .ok sum)) :
    sum = (counts.map fun c => c.2.toNat).sum := by
  induction counts generalizing s sum with
  | nil =>
    cases h
    rfl
  | cons c rest ih =>
    obtain ⟨e, n⟩ := c
    unfold merge at h
    split at h
    · cases h
    · next s' _ =>
      rcases hm : s'.merge rest with ⟨u, misuse | more⟩
      · rw [hm] at h
        cases h
      · rw [hm] at h
        cases h
        rw [List.map_cons, List.sum_cons, ← ih hm]

/-- A tally of edges of the store is merged, whatever the order in which it is visited. -/
theorem merge_visited (hw : s.readOnly = false) (hsize : s.records.size ≤ UInt32.size)
    (hin : ∀ c ∈ counts, c.1.toNat < s.records.size) {visited : List (EdgeId × UInt32)}
    (hv : visited.Perm counts) :
    s.merge visited = ((s.merge counts).1, .ok (counts.map fun c => c.2.toNat).sum) := by
  have hin' : ∀ c ∈ visited, c.1.toNat < s.records.size := fun c hc => hin c (hv.mem_iff.mp hc)
  obtain ⟨t, sum, hmerge, ht⟩ := merge_holds counts hw hin (holds_self s)
  obtain ⟨u, sum', hmerge', hu⟩ := merge_holds visited hw hin' (holds_self s)
  simp only [added_perm hv] at hu
  have hrt : Recounts s (s.merge counts).1 := recounts_merge counts
  have hru : Recounts s (s.merge visited).1 := recounts_merge visited
  rw [hmerge] at hrt
  rw [hmerge'] at hru
  have hsame : u = t := eq_of_holds hsize hru hrt hu ht
  have hsum : sum' = (counts.map fun c => c.2.toNat).sum := by
    rw [merge_sum hmerge']
    exact (hv.map fun c => c.2.toNat).sum_nat
  rw [hmerge, hmerge', hsame, hsum]

/-! ## Misuse -/

theorem answer_of_ge (d : Disk) (hw : s.readOnly = false) (hc : c.edge? = some e)
    (he : s.edgeCount ≤ e.toNat) :
    s.answer d c = .misused (.outOfRange s.edgeCount e.toNat) := by
  cases c with
  | set e' n =>
    cases hc
    simp only [answer, set_of_ge hw he, Answer.unlessMisused]
  | add e' n =>
    cases hc
    simp only [answer, add_of_ge hw he, Answer.unlessMisused]
  | get e' =>
    cases hc
    simp only [answer, get_of_ge he, Answer.unlessMisused]
  | popularity e' =>
    cases hc
    simp only [answer, popularity, get_of_ge he, Except.map, Answer.unlessMisused]
  | merge _ | flush => cases hc

theorem orKept_of_misused {r : Except Misuse Store} {misuse : Misuse}
    (h : Answer.unlessMisused (fun _ => .done) r = .misused misuse) : s.orKept r = s := by
  cases r with
  | ok t => cases h
  | error misuse => rfl

/-- A misused call leaves the store and the disk as they were. -/
theorem after_of_misused (hw : s.readOnly = false) (hsize : s.records.size ≤ UInt32.size)
    (hin : c.InRange s.records.size) {misuse : Misuse} (h : s.answer d c = .misused misuse) :
    s.after d c = (s, d) := by
  cases c with
  | set e n => exact congrArg (·, d) (orKept_of_misused h)
  | add e n => exact congrArg (·, d) (orKept_of_misused h)
  | merge counts =>
    rw [answer, merge_visited hw hsize hin (.refl counts)] at h
    cases h
  | get _ | popularity _ => rfl
  | flush =>
    rcases hflush : (s.flush d).2 with f | ⟨⟩
    · simp only [answer, hflush, Answer.unlessFailed] at h
      cases h
    · simp only [answer, hflush, Answer.unlessFailed] at h
      cases h

/-- A store that can only be read refuses what would change it. -/
theorem answer_readOnly (d : Disk) (hr : s.readOnly = true) :
    (∀ e n, s.answer d (.set e n) = .misused (.readOnly s.path)) ∧
    (∀ e n, s.answer d (.add e n) = .misused (.readOnly s.path)) ∧
    (∀ counts, counts ≠ [] → s.answer d (.merge counts) = .misused (.readOnly s.path)) ∧
    s.answer d .flush = .failed (.configuration (.readOnly s.path)) := by
  have hadd : ∀ e n, s.add e n = .error (.readOnly s.path) := fun e n => if_pos hr
  have hflush : s.flush d = (d, .error (.configuration (.readOnly s.path))) := if_pos hr
  refine ⟨fun e n => ?_, fun e n => ?_, fun counts hne => ?_, ?_⟩
  · have hset : s.set e n = .error (.readOnly s.path) := if_pos hr
    simp only [answer, hset, Answer.unlessMisused]
  · simp only [answer, hadd, Answer.unlessMisused]
  · cases counts with
    | nil => exact absurd rfl hne
    | cons first rest => simp only [answer, merge, hadd, Answer.unlessMisused]
  · simp only [answer, hflush, Answer.unlessFailed]

theorem after_readOnly (d : Disk) (c : Call) (hr : s.readOnly = true) :
    s.after d c = (s, d) := by
  cases c with
  | set e n =>
    have hset : s.set e n = .error (.readOnly s.path) := if_pos hr
    simp only [after, hset, orKept]
  | add e n =>
    have hadd : s.add e n = .error (.readOnly s.path) := if_pos hr
    simp only [after, hadd, orKept]
  | merge counts =>
    cases counts with
    | nil => rfl
    | cons first rest =>
      have hadd : s.add first.1 first.2 = .error (.readOnly s.path) := if_pos hr
      simp only [after, merge, hadd]
  | get _ | popularity _ => rfl
  | flush =>
    have hflush : s.flush d = (d, .error (.configuration (.readOnly s.path))) := if_pos hr
    simp only [after, hflush]

theorem run_readOnly (d : Disk) (calls : List Call) (hr : s.readOnly = true) :
    s.run d calls = (s, d) := by
  induction calls with
  | nil => rfl
  | cons c rest ih =>
    rw [run_cons, after_readOnly d c hr]
    exact ih

/-! ## Stores that were created, and stores that were loaded -/

/-- What a store has that was created for this many edges. -/
structure Fresh (s : Store) (edgeCount : Nat) : Prop where
  writable : s.readOnly = false
  zeros : s.records = Array.replicate edgeCount 0
  bounded : edgeCount ≤ UInt32.size

theorem fresh_of_create {d' : Disk} {path : String} {network : Extent}
    (h : create d path network = (d', .ok s)) : s.Fresh network.edgeCount := by
  have hcreated := create_created d path network
  rw [h] at hcreated
  cases hcreated with
  | created admitted _ _ =>
    obtain ⟨-, hmax, rfl⟩ := Extent.admitted_eq_ok_iff.mp admitted
    exact ⟨rfl, rfl, hmax⟩

theorem Fresh.size_eq {edgeCount : Nat} (h : s.Fresh edgeCount) : s.records.size = edgeCount := by
  rw [h.zeros, Array.size_replicate]

/-- What the counter of an edge is after any calls of a new store. -/
theorem Fresh.get_run {edgeCount : Nat} (h : s.Fresh edgeCount) (d : Disk)
    (hin : ∀ c ∈ calls, c.InRange edgeCount) (he : e.toNat < edgeCount) :
    ∃ k, (s.run d calls).1.get e = .ok k ∧
      k.toNat = min maxCount (calls.foldl Call.retotal (fun _ => 0) e) := by
  have hr := recounts_run s d calls
  have hlt : e.toNat < (s.run d calls).1.records.size := by
    rw [hr.size_eq, h.size_eq]
    exact he
  rw [← h.size_eq] at hin
  exact ⟨_, get_of_lt hlt, run_holds d h.writable hin (holds_zeros h.zeros) e hlt⟩

/-- After any calls, a store that was created has a counter for every edge, which is what the edge
was last set to and all that was added to it since, as far as counters go; a misused call changes
nothing, and merging yields the sum of the counts, whatever the order in which they are visited. A
store that was loaded stays as it is, with the disk, and refuses what would change it. -/
theorem store_history (d : Disk) (path : String) (network : Extent) :
    (∀ d₀ s, create d path network = (d₀, .ok s) →
      ∀ calls : List Call, (∀ c ∈ calls, c.InRange network.edgeCount) →
      let now := s.run d₀ calls
      now.1.edgeCount = network.edgeCount ∧
      now.1.capacity = Index.byteSize network.edgeCount ∧
      (∀ e : EdgeId, e.toNat < network.edgeCount → ∃ k, now.1.get e = .ok k ∧
        ((∀ n, .set e n ∉ calls) → k.toNat = min maxCount (given e calls)) ∧
        ∀ before n since, calls = before ++ .set e n :: since → (∀ m, .set e m ∉ since) →
          k.toNat = min maxCount (n.toNat + given e since)) ∧
      (∀ c : Call, ∀ e, c.edge? = some e → network.edgeCount ≤ e.toNat →
        now.1.answer now.2 c = .misused (.outOfRange network.edgeCount e.toNat)) ∧
      (∀ c : Call, c.InRange network.edgeCount →
        ∀ misuse, now.1.answer now.2 c = .misused misuse → now.1.after now.2 c = now) ∧
      ∀ counts visited : List (EdgeId × UInt32), (∀ c ∈ counts, c.1.toNat < network.edgeCount) →
        visited.Perm counts →
        now.1.answer now.2 (.merge visited) = .sum (counts.map fun c => c.2.toNat).sum ∧
          now.1.after now.2 (.merge visited) = now.1.after now.2 (.merge counts)) ∧
    (∀ s, load d path network = .ok (some s) → ∀ calls : List Call,
      s.run d calls = (s, d) ∧
      (∀ e n, s.answer d (.set e n) = .misused (.readOnly path)) ∧
      (∀ e n, s.answer d (.add e n) = .misused (.readOnly path)) ∧
      (∀ counts, counts ≠ [] → s.answer d (.merge counts) = .misused (.readOnly path)) ∧
      s.answer d .flush = .failed (.configuration (.readOnly path))) := by
  constructor
  · intro d₀ s hcreate calls hin now
    have hfresh := fresh_of_create hcreate
    have hr : Recounts s now.1 := recounts_run s d₀ calls
    have hsize : now.1.records.size = network.edgeCount := hr.size_eq.trans hfresh.size_eq
    have hcount : now.1.edgeCount = network.edgeCount := hsize
    have hw : now.1.readOnly = false := hr.readOnly_eq.trans hfresh.writable
    have hmax : now.1.records.size ≤ UInt32.size := hsize ▸ hfresh.bounded
    refine ⟨hsize, congrArg Index.byteSize hsize, fun e he => ?_, fun c e hc he => ?_,
      fun c hc misuse hmisuse => ?_, fun counts visited hcounts hvisited => ?_⟩
    · obtain ⟨k, hget, hk⟩ := hfresh.get_run d₀ hin he
      refine ⟨k, hget, fun hnever => ?_, fun before n since hcalls hlast => ?_⟩
      · rw [hk, foldl_retotal hnever, Nat.add_zero]
      · rw [hk, foldl_retotal_set hcalls hlast]
    · rw [← hcount] at he ⊢
      exact answer_of_ge now.2 hw hc he
    · rw [← hsize] at hc
      exact after_of_misused hw hmax hc hmisuse
    · rw [← hsize] at hcounts
      have hmerge := merge_visited hw hmax hcounts hvisited
      exact ⟨by simp only [answer, hmerge, Answer.unlessMisused], by simp only [after, hmerge]⟩
  · intro s hload calls
    obtain ⟨-, -, id, records, -, -, -, rfl⟩ := load_eq_some_iff.mp hload
    exact ⟨run_readOnly d calls rfl, answer_readOnly d rfl⟩

/-- A counter that was full is set anew and counted on. A loaded store is not counted with, whether
the edge is one of its own or not. -/
theorem history_of_one_edge :
    (∃ k, (run ⟨"index", 0, #[0], false⟩ (Index.soleFile (List.replicate 8 0))
        [.add 0 4294967295, .add 0 5, .get 9, .set 0 2, .merge [(0, 3)], .flush]).1.get 0 = .ok k ∧
      k.toNat = 5) ∧
    answer ⟨"index", 0, #[7], true⟩ (Index.soleFile (Index.image #[7])) (.add 9 1) =
      .misused (.readOnly "index") := by
  have hcreate := create_soleFile (n := 1) [] (by decide)
  obtain ⟨hcreated, -⟩ := store_history (Index.soleFile []) "index" ⟨1, false⟩
  have hin : ∀ c ∈ [Call.add 0 4294967295, .add 0 5, .get 9, .set 0 2, .merge [(0, 3)], .flush],
      c.InRange 1 := by
    simp [Call.InRange]
  obtain ⟨-, -, hcounters, -⟩ := hcreated _ _ hcreate _ hin
  obtain ⟨k, hget, -, hset⟩ := hcounters 0 (by decide)
  have hload : load (Index.soleFile (Index.image #[7])) "index" ⟨1, false⟩ =
      .ok (some ⟨"index", 0, #[7], true⟩) :=
    load_eq_some_iff.mpr ⟨rfl, by decide, 0, #[7],
      Disk.openFile_eq_ok_iff.mpr ⟨_, Index.locate_soleFile _⟩, rfl, rfl, rfl⟩
  obtain ⟨-, hloaded⟩ := store_history (Index.soleFile (Index.image #[7])) "index" ⟨1, false⟩
  obtain ⟨-, -, hadd, -⟩ := hloaded _ hload []
  refine ⟨⟨k, hget, ?_⟩, hadd 9 1⟩
  exact hset [.add 0 4294967295, .add 0 5, .get 9] 2 [.merge [(0, 3)], .flush] rfl (by simp)

end Ridership.Store
