import Mathlib.Data.List.FinRange
import Ridership.Proofs.Build.Halting

/-!
# Crews

The tracks of a build are matched by a crew of workers, and one loop merges what they send. A worker
takes a track, looks whether the build was cancelled, and skips the track or matches it and sends
the result. The loop receives the results in any order. When a failed one ends the merging, the loop
cancels the build; the workers find out when they look the next time. Workers and loop act one step
at a time, in any order.
-/

namespace Ridership.Build

/-- What a crew is given to do: the tracks, what comes of matching each of them, and the store that
the results are merged into. -/
structure Job where
  paths : List String
  attempt : Fin paths.length → Except Failure Counts
  policy : FailurePolicy
  store : Store
  workerCount : Nat

namespace Job

/-- A track is known by its place. The same path may be listed more than once. -/
abbrev Track (job : Job) := Fin job.paths.length

/-- A result on its way from a worker to the loop. -/
abbrev Message (job : Job) := job.Track × Except Failure Counts

def path (job : Job) (i : job.Track) : String :=
  job.paths[i]

def result (job : Job) (i : job.Track) : Result :=
  (job.path i, job.attempt i)

def Fails (job : Job) (i : job.Track) : Prop :=
  ∃ f, job.attempt i = .error f

end Job

namespace Crew

/-- A worker that has taken a track has yet to look whether the build was cancelled. -/
inductive Worker (job : Job)
  | idle
  | taken (i : job.Track)
  | matching (i : job.Track)

/-- The loop waits for a result, holds one that it has received, or has returned. -/
inductive Loop (job : Job)
  | waiting (m : Merging)
  | holding (m : Merging) (message : job.Message)
  | ended (r : Except Halt Merging)

structure State (job : Job) where
  pending : List job.Track
  workers : List (Worker job)
  channel : List job.Message := []
  cancelled : Bool := false
  loop : Loop job
  events : List Event := []

inductive Act (job : Job)
  | take (i : job.Track)
  | pass (i : job.Track)
  | skip (i : job.Track)
  | send (i : job.Track)
  | receive (i : job.Track)
  | accept (i : job.Track)
  | abort (i : job.Track)
  | misuse (i : job.Track)
  | close

def start (job : Job) : State job where
  pending := List.finRange job.paths.length
  workers := List.replicate job.workerCount .idle
  loop := .waiting { store := job.store }

variable {job : Job}

/-- The merging of one received result. -/
def settle (m : Merging) (message : job.Message) : List Event × Except Halt Merging :=
  m.step job.policy job.paths.length (job.path message.1, message.2)

/-- What a worker or the loop can do next. Which worker acts makes no difference. -/
inductive Step : Act job → State job → State job → Prop
  | take {s before after i earlier later} (worker : s.workers = before ++ .idle :: after)
      (track : s.pending = earlier ++ i :: later) :
      Step (.take i) s
        { s with workers := before ++ .taken i :: after, pending := earlier ++ later }
  -- The flag is read without ordering, so a worker may pass when it has been set already.
  | pass {s before after i} (worker : s.workers = before ++ .taken i :: after) :
      Step (.pass i) s { s with workers := before ++ .matching i :: after }
  | skip {s before after i} (worker : s.workers = before ++ .taken i :: after)
      (flag : s.cancelled = true) :
      Step (.skip i) s { s with workers := before ++ .idle :: after }
  | send {s before after i} (worker : s.workers = before ++ .matching i :: after) :
      Step (.send i) s
        { s with workers := before ++ .idle :: after, channel := s.channel ++ [(i, job.attempt i)] }
  | receive {s m message earlier later} (idle : s.loop = .waiting m)
      (sent : s.channel = earlier ++ message :: later) :
      Step (.receive message.1) s
        { s with loop := .holding m message, channel := earlier ++ later }
  | accept {s m message events m'} (held : s.loop = .holding m message)
      (merged : settle m message = (events, .ok m')) :
      Step (.accept message.1) s { s with loop := .waiting m', events := s.events ++ events }
  | abort {s m message events f} (held : s.loop = .holding m message)
      (failed : settle m message = (events, .error (.failed f))) :
      Step (.abort message.1) s
        { s with
          loop := .ended (.error (.failed f)), cancelled := true, events := s.events ++ events }
  | misuse {s m message events x} (held : s.loop = .holding m message)
      (misused : settle m message = (events, .error (.misused x))) :
      Step (.misuse message.1) s
        { s with loop := .ended (.error (.misused x)), events := s.events ++ events }
  -- The channel is closed when all workers are done, since only they send.
  | close {s m} (idle : s.loop = .waiting m) (drained : s.channel = []) (done : s.pending = [])
      (resting : ∀ w ∈ s.workers, w = .idle) :
      Step .close s { s with loop := .ended (.ok m) }

/-- The runs of a crew, with all that was done. -/
inductive Run (job : Job) : List (Act job) → State job → Prop
  | start : Run job [] (start job)
  | step {trace s a t} : Run job trace s → Step a s t → Run job (trace ++ [a]) t

variable {s t : State job} {a : Act job} {trace : List (Act job)} {i : job.Track}

/-! ## Where the tracks are -/

def Worker.held : Worker job → List job.Track
  | .idle => []
  | .taken i | .matching i => [i]

def Loop.messages : Loop job → List job.Message
  | .holding _ message => [message]
  | .waiting _ | .ended _ => []

/-- The messages that have been sent and not been settled. -/
def State.messages (s : State job) : List job.Message :=
  s.channel ++ s.loop.messages

/-- The tracks that are not done with, wherever they are. -/
def State.held (s : State job) : List job.Track :=
  s.pending ++ s.workers.flatMap Worker.held ++ s.messages.map Prod.fst

def Act.settled : Act job → List job.Track
  | .accept i | .abort i | .misuse i => [i]
  | .take _ | .pass _ | .skip _ | .send _ | .receive _ | .close => []

def Act.skipped : Act job → List job.Track
  | .skip i => [i]
  | .take _ | .pass _ | .send _ | .receive _ | .accept _ | .abort _ | .misuse _ | .close => []

/-- The tracks whose results the loop took in, the first one first. -/
def settled (trace : List (Act job)) : List job.Track :=
  trace.flatMap Act.settled

def skipped (trace : List (Act job)) : List job.Track :=
  trace.flatMap Act.skipped

theorem settled_snoc (trace : List (Act job)) (a : Act job) :
    settled (trace ++ [a]) = settled trace ++ a.settled := by
  simp [settled]

theorem skipped_snoc (trace : List (Act job)) (a : Act job) :
    skipped (trace ++ [a]) = skipped trace ++ a.skipped := by
  simp [skipped]

theorem mem_skipped : i ∈ skipped trace ↔ .skip i ∈ trace := by
  constructor
  · intro h
    obtain ⟨a, ha, hi⟩ := List.mem_flatMap.mp h
    cases a with
    | skip j =>
      obtain rfl := List.mem_singleton.mp hi
      exact ha
    | take _ | pass _ | send _ | receive _ | accept _ | abort _ | misuse _ | close => cases hi
  · intro h
    exact List.mem_flatMap.mpr ⟨_, h, List.mem_singleton.mpr rfl⟩

/-- A step moves tracks from one to another, and lets go only of the one it settles or skips. -/
theorem Step.held_perm (h : Step a s t) : (t.held ++ a.settled ++ a.skipped).Perm s.held := by
  refine List.perm_iff_count.mpr fun j => ?_
  cases h with
  | take worker track =>
    simp [State.held, State.messages, Worker.held, Act.settled, Act.skipped, worker, track,
      List.count_cons]
    omega
  | pass worker =>
    simp [State.held, State.messages, Worker.held, Act.settled, Act.skipped, worker]
  | skip worker _ | send worker =>
    simp [State.held, State.messages, Worker.held, Act.settled, Act.skipped, worker,
      List.count_cons]
    omega
  | receive idle sent =>
    simp [State.held, State.messages, Loop.messages, Act.settled, Act.skipped, idle, sent,
      List.count_cons]
  | accept held _ | abort held _ | misuse held _ =>
    simp [State.held, State.messages, Loop.messages, Act.settled, Act.skipped, held,
      List.count_cons]
  | close idle _ _ _ =>
    simp [State.held, State.messages, Loop.messages, Act.settled, Act.skipped, idle]

/-- Every track is held, settled or skipped, and only one of the three, and only once. -/
theorem Run.partition (h : Run job trace s) :
    (s.held ++ settled trace ++ skipped trace).Perm (List.finRange job.paths.length) := by
  induction h with
  | start =>
    have hidle : (List.replicate job.workerCount Worker.idle).flatMap Worker.held =
        ([] : List job.Track) := by
      simp [Worker.held]
    simp [State.held, State.messages, Crew.start, Loop.messages, hidle, settled, skipped]
  | @step trace s a t _ hstep ih =>
    have hmoved : (t.held ++ a.settled ++ a.skipped ++ settled trace ++ skipped trace).Perm
        (s.held ++ settled trace ++ skipped trace) :=
      (hstep.held_perm.append_right _).append_right _
    refine .trans (List.perm_iff_count.mpr fun j => ?_) (hmoved.trans ih)
    simp only [settled_snoc, skipped_snoc, List.count_append]
    omega

theorem Run.nodup_settled (h : Run job trace s) : (settled trace).Nodup := by
  have hall := h.partition.nodup_iff.mpr (List.nodup_finRange _)
  exact (List.nodup_append'.mp (List.nodup_append'.mp hall).1).2.1

/-! ## What is merged -/

/-- What the loop has merged so far, or has returned. -/
def Loop.result : Loop job → Except Halt Merging
  | .waiting m | .holding m _ => .ok m
  | .ended r => r

theorem Step.messages_honest (h : Step a s t)
    (hs : ∀ message ∈ s.messages, message.2 = job.attempt message.1) :
    ∀ message ∈ t.messages, message.2 = job.attempt message.1 := by
  intro message hm
  cases h with
  | take _ _ | pass _ | skip _ _ => exact hs message hm
  | @send _ before after i _ =>
    simp only [State.messages, List.mem_append, List.mem_singleton] at hm hs
    rcases hm with (hm | rfl) | hm
    · exact hs message (.inl hm)
    · rfl
    · exact hs message (.inr hm)
  | receive idle sent =>
    apply hs
    simp only [State.messages, idle, sent, Loop.messages, List.mem_append, List.mem_cons,
      List.not_mem_nil, or_false] at hm ⊢
    tauto
  | accept _ _ | abort _ _ | misuse _ _ | close _ _ _ _ =>
    apply hs
    simp only [State.messages, Loop.messages, List.append_nil] at hm
    exact List.mem_append_left _ hm

theorem State.mem_messages {m : Merging} {message : job.Message}
    (held : s.loop = .holding m message) : message ∈ s.messages := by
  rw [State.messages, held]
  exact List.mem_append_right _ (List.mem_singleton.mpr rfl)

/-- Every message has what came of matching its track. -/
theorem Run.honest (h : Run job trace s) :
    ∀ message ∈ s.messages, message.2 = job.attempt message.1 := by
  induction h with
  | start => exact fun message hm => absurd hm List.not_mem_nil
  | step _ hstep ih => exact hstep.messages_honest ih

/-- The results that the loop took in, in the order it did. -/
def arrivals (trace : List (Act job)) : List Result :=
  (settled trace).map job.result

/-- The merging of one track's result follows that of the results before it. -/
theorem run_arrivals_snoc {m : Merging} {message : job.Message} {events more : List Event}
    {r : Except Halt Merging} (a : Act job) (ha : a.settled = [message.1])
    (honest : message.2 = job.attempt message.1)
    (hr : Merging.run job.policy job.paths.length { store := job.store } (arrivals trace) =
      (events, .ok m))
    (hm : settle m message = (more, r)) :
    Merging.run job.policy job.paths.length { store := job.store } (arrivals (trace ++ [a])) =
      (events ++ more, r) := by
  have harrivals : arrivals (trace ++ [a]) = arrivals trace ++ [job.result message.1] := by
    simp [arrivals, settled_snoc, ha]
  rw [settle, honest] at hm
  rw [harrivals, Merging.run_snoc hr, Job.result, hm]

/-- The loop has what merging the results one after another gives. -/
theorem Run.merges (h : Run job trace s) :
    Merging.run job.policy job.paths.length { store := job.store } (arrivals trace) =
      (s.events, s.loop.result) := by
  induction h with
  | start => rfl
  | @step trace s a t hrun hstep ih =>
    have hsame (ha : a.settled = []) : arrivals (trace ++ [a]) = arrivals trace := by
      simp [arrivals, settled_snoc, ha]
    cases hstep with
    | take _ _ | pass _ | skip _ _ | send _ =>
      rw [hsame rfl]
      exact ih
    | receive idle _ =>
      rw [hsame rfl, ih, idle]
      rfl
    | close idle _ _ _ =>
      rw [hsame rfl, ih, idle]
      rfl
    | @accept _ m message _ _ held hm | @abort _ m message _ _ held hm
    | @misuse _ m message _ _ held hm =>
      rw [held] at ih
      exact run_arrivals_snoc _ rfl (hrun.honest message (State.mem_messages held)) ih hm

/-! ## The flag -/

theorem Step.cancelled_iff (h : Step a s t) :
    t.cancelled = true ↔ s.cancelled = true ∨ ∃ i, a = .abort i := by
  cases h <;> simp

/-- The build is cancelled when the loop has aborted it. -/
theorem Run.cancelled_iff (h : Run job trace s) :
    s.cancelled = true ↔ ∃ i, .abort i ∈ trace := by
  induction h with
  | start => simp [Crew.start]
  | step _ hstep ih =>
    rw [hstep.cancelled_iff, ih]
    simp only [List.mem_append, List.mem_singleton, exists_or, eq_comm]

/-- What was done at some point of a run was a step after what was done before. -/
theorem Run.step_at {before after : List (Act job)} (h : Run job (before ++ a :: after) s) :
    ∃ t u, Run job before t ∧ Step a t u := by
  generalize hall : before ++ a :: after = trace at h
  induction h generalizing after with
  | start => simp at hall
  | @step earlier t b u hrun hstep ih =>
    rcases List.eq_nil_or_concat after with rfl | ⟨others, last, rfl⟩
    · obtain ⟨rfl, hlast⟩ := List.append_inj' hall rfl
      cases hlast
      exact ⟨t, u, hrun, hstep⟩
    · rw [List.concat_eq_append, ← List.cons_append, ← List.append_assoc] at hall
      obtain ⟨hearlier, -⟩ := List.append_inj' hall rfl
      exact ih hearlier

/-- A worker skips a track only after the loop has aborted the build. -/
theorem Run.abort_before_skip {before after : List (Act job)}
    (h : Run job (before ++ .skip i :: after) s) : ∃ j, .abort j ∈ before := by
  obtain ⟨t, u, hrun, hstep⟩ := h.step_at
  cases hstep with
  | skip _ flag => exact hrun.cancelled_iff.mp flag

/-! ## The loop -/

/-- The acts of the loop. All others are acts of workers. -/
def Act.byLoop : Act job → Bool
  | .receive _ | .accept _ | .abort _ | .misuse _ | .close => true
  | .take _ | .pass _ | .skip _ | .send _ => false

theorem Step.holding (h : Step a s t) {m : Merging} {message : job.Message}
    (ht : t.loop = .holding m message) :
    (a.byLoop = false ∧ s.loop = .holding m message) ∨ a = .receive message.1 := by
  cases h with
  | take _ _ | pass _ | skip _ _ | send _ => exact .inl ⟨rfl, ht⟩
  | receive _ _ =>
    cases ht
    exact .inr rfl
  | accept _ _ | abort _ _ | misuse _ _ | close _ _ _ _ => cases ht

/-- What the loop holds it has received last. -/
theorem Run.received (h : Run job trace s) {m : Merging} {message : job.Message}
    (hs : s.loop = .holding m message) :
    (trace.filter Act.byLoop).getLast? = some (.receive message.1) := by
  induction h with
  | start => cases hs
  | step _ hstep ih =>
    rcases hstep.holding hs with ⟨hworker, hs⟩ | rfl
    · rw [List.filter_append, List.filter_singleton, hworker, cond_false, List.append_nil]
      exact ih hs
    · rw [List.filter_append, List.filter_singleton]
      exact List.getLast?_concat

/-- The build is aborted where that is the policy, by the result of a failed track that the loop has
received just before. -/
theorem Run.abort_after_failure {before after : List (Act job)}
    (h : Run job (before ++ .abort i :: after) s) :
    job.policy = .abortOnFirstError ∧ job.Fails i ∧
      (before.filter Act.byLoop).getLast? = some (.receive i) := by
  obtain ⟨t, u, hrun, hstep⟩ := h.step_at
  cases hstep with
  | @abort _ _ message _ _ held hm =>
    obtain ⟨hpolicy, g, hfailed, -⟩ := Merging.step_failed hm
    have hattempt := hrun.honest message (State.mem_messages held)
    exact ⟨hpolicy, ⟨g, hattempt.symm.trans hfailed⟩, hrun.received held⟩

/-- A loop that has returned does nothing more. -/
theorem Step.loop_ended (h : Step a s t) {r : Except Halt Merging} (hs : s.loop = .ended r) :
    t.loop = .ended r := by
  cases h with
  | take _ _ | pass _ | skip _ _ | send _ => exact hs
  | receive idle _ | close idle _ _ _ =>
    rw [hs] at idle
    cases idle
  | accept held _ | abort held _ | misuse held _ =>
    rw [hs] at held
    cases held

/-- A build that was cancelled has failed. -/
theorem Run.failed_of_cancelled (h : Run job trace s) (hc : s.cancelled = true) :
    ∃ f, s.loop = .ended (.error (.failed f)) := by
  induction h with
  | start => cases hc
  | step _ hstep ih =>
    rcases hstep.cancelled_iff.mp hc with hc | ⟨i, rfl⟩
    · obtain ⟨f, hs⟩ := ih hc
      exact ⟨f, hstep.loop_ended hs⟩
    · cases hstep with
      | abort _ _ => exact ⟨_, rfl⟩

/-- No track is left where the loop has returned without a failure. -/
theorem Run.held_of_ok (h : Run job trace s) {m : Merging} (hs : s.loop = .ended (.ok m)) :
    s.held = [] := by
  induction h with
  | start => cases hs
  | @step trace s a t _ hstep ih =>
    have hkept (hloop : s.loop = .ended (.ok m)) : t.held = [] := by
      have hperm := hstep.held_perm
      rw [ih hloop] at hperm
      have hnil := hperm.eq_nil
      simp only [List.append_eq_nil_iff] at hnil
      exact hnil.1.1
    cases hstep with
    | take _ _ | pass _ | skip _ _ | send _ => exact hkept hs
    | receive _ _ | accept _ _ | abort _ _ | misuse _ _ => cases hs
    | close idle drained done resting =>
      have hidle : s.workers.flatMap Worker.held = [] := by
        refine List.flatMap_eq_nil_iff.mpr fun w hw => ?_
        rw [resting w hw, Worker.held]
      simp [State.held, State.messages, Loop.messages, drained, done, hidle]

end Crew

end Ridership.Build
