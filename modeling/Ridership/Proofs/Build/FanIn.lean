import Ridership.Proofs.Build.Crew

/-!
# What a crew comes to

However workers and loop take turns, a crew that is done has either taken in every track once or
failed with a track that cannot be matched. So its report is one that the tracks have when they
arrive in some order, and a build of a folder is such a report. A crew with a worker can always go
on until it is done, and is done after a bounded number of steps.
-/

namespace Ridership.Build.Crew

variable {job : Job} {s t : State job} {a : Act job} {trace : List (Act job)} {m : Merging}
  {r : List Event × Except Halt (Store × Summary)}

/-! ## What the loop returns -/

theorem Run.skipped_eq_nil (h : Run job trace s) (hnone : ∀ j, .abort j ∉ trace) :
    skipped trace = [] := by
  refine List.eq_nil_iff_forall_not_mem.mpr fun i hi => ?_
  obtain ⟨before, after, rfl⟩ := List.append_of_mem (mem_skipped.mp hi)
  obtain ⟨j, hj⟩ := h.abort_before_skip
  exact hnone j (List.mem_append_left _ hj)

theorem Run.skipped_of_bestEffort (h : Run job trace s) (hp : job.policy = .bestEffort) :
    skipped trace = [] := by
  refine h.skipped_eq_nil fun j hj => ?_
  obtain ⟨before, after, rfl⟩ := List.append_of_mem hj
  have habort := h.abort_after_failure.1
  rw [hp] at habort
  cases habort

theorem Run.skipped_of_ok (h : Run job trace s) (hs : s.loop = .ended (.ok m)) :
    skipped trace = [] := by
  refine h.skipped_eq_nil fun j hj => ?_
  obtain ⟨f, hf⟩ := h.failed_of_cancelled (h.cancelled_iff.mpr ⟨j, hj⟩)
  rw [hs] at hf
  cases hf

/-- Without a failure every result is taken in, and each of them once. -/
theorem Run.settled_of_ok (h : Run job trace s) (hs : s.loop = .ended (.ok m)) :
    (settled trace).Perm (List.finRange job.paths.length) := by
  have hall := h.partition
  rw [h.held_of_ok hs, h.skipped_of_ok hs, List.nil_append, List.append_nil] at hall
  exact hall

theorem Run.merges_ended (h : Run job trace s) {r : Except Halt Merging} (hs : s.loop = .ended r) :
    Merging.run job.policy job.paths.length { store := job.store } (arrivals trace) =
      (s.events, r) := by
  rw [h.merges, hs, Loop.result]

/-- A failure names a track that failed, and why. -/
theorem Run.failed_track (h : Run job trace s) {f : Failure}
    (hs : s.loop = .ended (.error (.failed f))) :
    job.policy = .abortOnFirstError ∧
      ∃ i g, job.attempt i = .error g ∧ f = .trackFile (job.path i) g := by
  obtain ⟨hp, r, hmem, g, hr, hf⟩ := Merging.run_failed (h.merges_ended hs)
  obtain ⟨i, -, rfl⟩ := List.mem_map.mp hmem
  exact ⟨hp, i, g, hr, hf⟩

/-- Aborting on failures, the loop fails when some track does, be it one that was skipped. -/
theorem Run.failed_iff (h : Run job trace s) (hp : job.policy = .abortOnFirstError)
    {r : Except Halt Merging} (hs : s.loop = .ended r) (hr : ∀ x, r ≠ .error (.misused x)) :
    (∃ f, r = .error (.failed f)) ↔ ∃ i, job.Fails i := by
  constructor
  · rintro ⟨f, rfl⟩
    obtain ⟨-, i, g, hfails, -⟩ := h.failed_track hs
    exact ⟨i, g, hfails⟩
  · rintro ⟨i, g, hfails⟩
    rcases r with (f | x) | m
    · exact ⟨f, rfl⟩
    · exact absurd rfl (hr x)
    · have hmem : job.result i ∈ arrivals trace :=
        List.mem_map_of_mem ((h.settled_of_ok hs).mem_iff.mpr (List.mem_finRange i))
      rcases Merging.tolerated_of_run (h.merges_ended hs) _ hmem with hbest | ⟨counts, hok⟩
      · rw [hp] at hbest
        cases hbest
      · rw [Job.result, hfails] at hok
        cases hok

theorem Run.not_misused (h : Run job trace s) (hw : job.store.readOnly = false)
    (hin : ∀ i, InRange job.store.records.size (job.result i)) (x : Misuse) :
    s.loop ≠ .ended (.error (.misused x)) := by
  intro hs
  refine Merging.run_not_misused hw (fun r hr => ?_) (h.merges_ended hs)
  obtain ⟨i, -, rfl⟩ := List.mem_map.mp hr
  exact hin i

/-! ## The report -/

/-- What a crew reports and returns, when its loop has returned. -/
def State.report (s : State job) : Option (List Event × Except Halt (Store × Summary)) :=
  match s.loop with
  | .ended (.ok m) =>
    let summary := m.summary job.paths.length
    some (s.events ++ [.finished summary], .ok (m.store, summary))
  | .ended (.error halt) => some (s.events, .error halt)
  | .waiting _ | .holding _ _ => none

/-- A crew reports what merging all results in some order does. -/
theorem Run.mergeAll_of_report (h : Run job trace s) (hr : s.report = some r) :
    ∃ order : List job.Track, order.Perm (List.finRange job.paths.length) ∧
      mergeAll job.policy job.store (order.map job.result) = r := by
  -- The results that the loop did not take in come last, where they make no difference.
  have hperm : (settled trace ++ (s.held ++ skipped trace)).Perm
      (List.finRange job.paths.length) := by
    refine .trans (List.perm_iff_count.mpr fun j => ?_) h.partition
    simp only [List.count_append]
    omega
  refine ⟨_, hperm, ?_⟩
  have hlength : ((settled trace ++ (s.held ++ skipped trace)).map job.result).length =
      job.paths.length := by
    rw [List.length_map, hperm.length_eq, List.length_finRange]
  unfold State.report at hr
  split at hr
  · next m hs =>
    cases hr
    rw [mergeAll, hlength, h.held_of_ok hs, h.skipped_of_ok hs, List.append_nil, List.append_nil,
      ← arrivals, h.merges_ended hs]
  · next halt hs =>
    cases hr
    rw [mergeAll, hlength, List.map_append, ← arrivals,
      Merging.run_append_of_error (h.merges_ended hs)]
  · cases hr
  · cases hr

/-- The tracks of a folder that are to be filled into a store. -/
def ofTracks (sched : Scheduling) (d : Disk) (matcher : Snap.Matcher) (policy : FailurePolicy)
    (store : Store) (files : List String) (workerCount : Nat) : Job where
  paths := files
  attempt i := (Source.resultOf sched d matcher files[i]).2
  policy
  store
  workerCount

/-- What a crew reports of the tracks of a folder is what filling the store from the folder comes to
when the results arrive in some order. -/
theorem fillFromTracks_of_report {sched : Scheduling} {d : Disk} {folder : String}
    {matcher : Snap.Matcher} {policy : FailurePolicy} {store : Store} {files : List String}
    {workerCount : Nat}
    {s : State (ofTracks sched d matcher policy store files workerCount)}
    {trace : List (Act (ofTracks sched d matcher policy store files workerCount))}
    (hfiles : Track.files d folder = .ok files) (hworkers : sched.noWorkers = none)
    (h : Run _ trace s) (hr : s.report = some r) :
    ∃ order : List String → List String, (order files).Perm files ∧
      Source.fillFromTracks { sched with order } d folder matcher policy store = r := by
  obtain ⟨places, hplaces, hmerge⟩ := h.mergeAll_of_report hr
  refine ⟨fun _ => places.map fun i => files[i], ?_, ?_⟩
  · exact (hplaces.map fun i => files[i]).trans (.of_eq (List.map_getElem_finRange files))
  · simp only [Source.fillFromTracks, hfiles, hworkers, List.map_map]
    exact hmerge

/-! ## Progress -/

/-- The loop has returned, and the workers have nothing to do. -/
structure State.Finished (s : State job) : Prop where
  ended : ∃ r, s.loop = .ended r
  drained : s.pending = []
  resting : ∀ w ∈ s.workers, w = .idle

/-- The most steps that can be left for a worker, for one message, for the loop. -/
def Worker.stepsLeft : Worker job → Nat
  | .idle => 0
  | .taken _ => 4
  | .matching _ => 3

def Loop.stepsLeft : Loop job → Nat
  | .waiting _ => 1
  | .holding _ _ => 2
  | .ended _ => 0

def State.stepsLeft (s : State job) : Nat :=
  5 * s.pending.length + (s.workers.map Worker.stepsLeft).sum + 2 * s.channel.length +
    s.loop.stepsLeft

theorem Step.stepsLeft_lt (h : Step a s t) : t.stepsLeft < s.stepsLeft := by
  cases h with
  | take worker track =>
    simp [State.stepsLeft, Worker.stepsLeft, worker, track]
    omega
  | pass worker | skip worker _ => simp [State.stepsLeft, Worker.stepsLeft, worker]
  | send worker =>
    simp [State.stepsLeft, Worker.stepsLeft, worker]
    omega
  | receive idle sent =>
    simp [State.stepsLeft, Loop.stepsLeft, idle, sent]
    omega
  | accept held _ | abort held _ | misuse held _ =>
    simp [State.stepsLeft, Loop.stepsLeft, held]
  | close idle _ _ _ => simp [State.stepsLeft, Loop.stepsLeft, idle]

/-- A track takes at most five steps, and the last step is the loop's. -/
theorem Run.length_le (h : Run job trace s) :
    trace.length + s.stepsLeft ≤ 5 * job.paths.length + 1 := by
  induction h with
  | start => simp [State.stepsLeft, Crew.start, Worker.stepsLeft, Loop.stepsLeft]
  | step _ hstep ih =>
    have hlt := hstep.stepsLeft_lt
    rw [List.length_append, List.length_singleton]
    omega

theorem Step.length_workers (h : Step a s t) : t.workers.length = s.workers.length := by
  cases h with
  | take worker _ | pass worker | skip worker _ | send worker => simp [worker]
  | receive _ _ | accept _ _ | abort _ _ | misuse _ _ | close _ _ _ _ => rfl

theorem Run.length_workers (h : Run job trace s) : s.workers.length = job.workerCount := by
  induction h with
  | start => exact List.length_replicate
  | step _ hstep ih => exact hstep.length_workers.trans ih

/-- A crew with a worker can go on as long as it is not done. -/
theorem Run.finished_of_stuck (h : Run job trace s) (hn : 0 < job.workerCount)
    (hstuck : ∀ a t, ¬ Step a s t) : s.Finished := by
  have hresting : ∀ w ∈ s.workers, w = .idle := by
    intro w hw
    obtain ⟨before, after, hworkers⟩ := List.append_of_mem hw
    cases w with
    | idle => rfl
    | taken i => exact absurd (.pass hworkers) (hstuck _ _)
    | matching i => exact absurd (.send hworkers) (hstuck _ _)
  have hpending : s.pending = [] := by
    refine List.eq_nil_iff_forall_not_mem.mpr fun i hi => ?_
    obtain ⟨earlier, later, htrack⟩ := List.append_of_mem hi
    obtain ⟨w, hw⟩ := List.exists_mem_of_length_pos (h.length_workers ▸ hn)
    obtain ⟨before, after, hworkers⟩ := List.append_of_mem hw
    rw [hresting w hw] at hworkers
    exact hstuck _ _ (.take hworkers htrack)
  refine ⟨?_, hpending, hresting⟩
  cases hloop : s.loop with
  | ended r => exact ⟨r, rfl⟩
  | holding m message =>
    rcases hm : settle m message with ⟨events, (f | x) | m'⟩
    · exact absurd (.abort hloop hm) (hstuck _ _)
    · exact absurd (.misuse hloop hm) (hstuck _ _)
    · exact absurd (.accept hloop hm) (hstuck _ _)
  | waiting m =>
    cases hchannel : s.channel with
    | nil => exact absurd (.close hloop hchannel hpending hresting) (hstuck _ _)
    | cons message later =>
      have hsent : s.channel = [] ++ message :: later := hchannel
      exact absurd (.receive hloop hsent) (hstuck _ _)

/-! ## Every interleaving -/

/-- However the steps of a crew interleave: no result is taken in twice, and the store is what
merging the results taken in makes of it; a track is skipped only in a build that was aborted, and
a build is aborted only where that is the policy, right after the result of a failed track was
received. So a build succeeds only with every result, a build that tolerates failures skips nothing,
and a build that does not tolerate them fails if and only if some track does, with the path and the
failure of such a track. Only counts of edges that the store does not have end it otherwise. -/
theorem every_interleaving_is_safe (h : Run job trace s) :
    (settled trace).Nodup ∧
    Merging.run job.policy job.paths.length { store := job.store } (arrivals trace) =
      (s.events, s.loop.result) ∧
    (∀ before i after, trace = before ++ .skip i :: after → ∃ j, .abort j ∈ before) ∧
    (s.cancelled = true ↔ ∃ j, .abort j ∈ trace) ∧
    (∀ before j after, trace = before ++ .abort j :: after →
      job.policy = .abortOnFirstError ∧ job.Fails j ∧
        (before.filter Act.byLoop).getLast? = some (.receive j)) ∧
    (∀ m, s.loop = .ended (.ok m) →
      (settled trace).Perm (List.finRange job.paths.length) ∧ skipped trace = []) ∧
    (job.policy = .bestEffort → skipped trace = []) ∧
    (job.policy = .abortOnFirstError → ∀ r, s.loop = .ended r →
      (∀ x, r ≠ .error (.misused x)) → ((∃ f, r = .error (.failed f)) ↔ ∃ i, job.Fails i)) ∧
    (∀ f, s.loop = .ended (.error (.failed f)) → job.policy = .abortOnFirstError ∧
      ∃ i g, job.attempt i = .error g ∧ f = .trackFile (job.path i) g) ∧
    (job.store.readOnly = false → (∀ i, InRange job.store.records.size (job.result i)) →
      ∀ x, s.loop ≠ .ended (.error (.misused x))) ∧
    trace.length ≤ 5 * job.paths.length + 1 ∧
    (0 < job.workerCount → (∀ a t, ¬ Step a s t) → s.Finished) := by
  refine ⟨h.nodup_settled, h.merges, ?_, h.cancelled_iff, ?_, fun m hs => ?_,
    h.skipped_of_bestEffort, fun hp r hs hr => h.failed_iff hp hs hr, fun f hs => h.failed_track hs,
    fun hw hin => h.not_misused hw hin, ?_, h.finished_of_stuck⟩
  · rintro before i after rfl
    exact h.abort_before_skip
  · rintro before j after rfl
    exact h.abort_after_failure
  · exact ⟨h.settled_of_ok hs, h.skipped_of_ok hs⟩
  · have hlength := h.length_le
    omega

/-- Three tracks for two workers, the first of them without points. -/
def threeTracks : Job where
  paths := ["a", "b", "c"]
  attempt i := if i.val = 0 then .error (.malformedTrack "a" .noPoints) else .ok [(0, 1)]
  policy := .abortOnFirstError
  store := ⟨"index", 0, #[0], false⟩
  workerCount := 2

def track (i : Fin 3) : threeTracks.Track :=
  i

/-- One worker looks before the build is aborted and sends after it, the other then skips the third
track. The result of the second track stays in the channel. -/
theorem abort_of_three_tracks :
    ∃ s, Run threeTracks [.take (track 0), .pass (track 0), .take (track 1), .send (track 0),
        .pass (track 1), .receive (track 0), .abort (track 0), .send (track 1), .take (track 2),
        .skip (track 2)] s ∧
      s.channel = [(track 1, .ok [(0, 1)])] ∧ s.Finished ∧
      ∃ f i g, s.loop = .ended (.error (.failed f)) ∧ threeTracks.attempt i = .error g ∧
        f = .trackFile (threeTracks.path i) g := by
  have hrun := @Run.start threeTracks
    |>.step (@Step.take _ _ [] [.idle] (track 0) [] [track 1, track 2] rfl rfl)
    |>.step (@Step.pass _ _ [] [.idle] (track 0) rfl)
    |>.step (@Step.take _ _ [.matching (track 0)] [] (track 1) [] [track 2] rfl rfl)
    |>.step (@Step.send _ _ [] [.taken (track 1)] (track 0) rfl)
    |>.step (@Step.pass _ _ [.idle] [] (track 1) rfl)
    |>.step (@Step.receive _ _ _ (track 0, _) [] [] rfl rfl)
    |>.step (.abort rfl rfl)
    |>.step (@Step.send _ _ [.idle] [] (track 1) rfl)
    |>.step (@Step.take _ _ [] [.idle] (track 2) [] [] rfl rfl)
    |>.step (@Step.skip _ _ [] [.idle] (track 2) rfl rfl)
  obtain ⟨-, -, -, -, -, -, -, -, hfailed, -⟩ := every_interleaving_is_safe hrun
  obtain ⟨-, i, g, hattempt, hg⟩ := hfailed _ rfl
  exact ⟨_, hrun, rfl, ⟨⟨_, rfl⟩, rfl, by simp⟩, _, i, g, rfl, hattempt, hg⟩

end Ridership.Build.Crew
