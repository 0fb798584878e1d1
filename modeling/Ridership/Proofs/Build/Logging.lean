import Ridership.Build.Log
import Ridership.Proofs.Build.Reporting

/-!
# Which blocks a log tells of

A log keeps one number, the block it has logged last, and hears of failed tracks only that they
failed. It tells the progress with exactly the merged tracks that lie in a block beyond those of all
merged tracks before them. So no block is told twice, a block that a failed track filled is told
with the next track that is merged, and there are no more such lines than full blocks. Nothing is
said of the times in the lines.
-/

namespace Ridership.Build

/-- The line that tells how far a build has come. -/
def progressLine (p : Progress) : Line :=
  ⟨.info, s!"Processed {p.done}/{p.total} track files, " ++
    s!"{p.increments} increments applied"⟩

def Line.tellsProgress (line : Line) : Bool :=
  line.text.startsWith "Processed "

theorem tellsProgress_progressLine (p : Progress) : (progressLine p).tellsProgress = true := by
  simp [Line.tellsProgress, progressLine, String.startsWith_string_iff, toString]

/-- The block of so many tracks that a progress has come to. -/
def blockOf (interval : Nat) (p : Progress) : Nat :=
  p.done / max interval 1

/-- The progress has come to a block beyond those of all merged tracks before it. -/
def Advances (interval : Nat) (before : List Event) (p : Progress) : Prop :=
  0 < blockOf interval p ∧ ∀ q, .merged q ∈ before → blockOf interval q < blockOf interval p

namespace Log

variable {l : Log} {e : Event} {p : Progress} {before events : List Event} {n interval : Nat}

/-! ## One event -/

def block (l : Log) (p : Progress) : Nat :=
  p.done / l.interval

theorem report_merged_of_lt (h : l.loggedBlock < l.block p) :
    l.report (.merged p) = ({ l with loggedBlock := l.block p }, [progressLine p]) :=
  if_pos h

theorem report_merged_of_le (h : l.block p ≤ l.loggedBlock) : l.report (.merged p) = (l, []) :=
  if_neg (Nat.not_lt.mpr h)

/-- Events that merge nothing leave a log as it is, and it does not tell the progress. -/
theorem report_other (h : ∀ p, e ≠ .merged p) :
    (l.report e).1 = l ∧ ∀ line ∈ (l.report e).2, line.tellsProgress = false := by
  cases e with
  | merged p => exact absurd rfl (h p)
  | failed path failure =>
    refine ⟨rfl, fun line hline => ?_⟩
    obtain rfl := List.mem_singleton.mp hline
    simp [Line.tellsProgress, toString]
  | finished summary =>
    refine ⟨rfl, fun line hline => ?_⟩
    obtain rfl := List.mem_singleton.mp hline
    simp [Line.tellsProgress, toString]

theorem interval_report (l : Log) (e : Event) : (l.report e).1.interval = l.interval := by
  by_cases h : ∃ p, e = .merged p
  · obtain ⟨p, rfl⟩ := h
    rcases Nat.lt_or_ge l.loggedBlock (l.block p) with hlt | hle
    · rw [report_merged_of_lt hlt]
    · rw [report_merged_of_le hle]
  · rw [(report_other (not_exists.mp h)).1]

/-- A log keeps the largest block of the merged tracks that it has heard of. -/
theorem loggedBlock_report_lt_iff :
    (l.report e).1.loggedBlock < n ↔
      l.loggedBlock < n ∧ ∀ p, e = .merged p → l.block p < n := by
  by_cases h : ∃ p, e = .merged p
  · obtain ⟨p, rfl⟩ := h
    have hall : (∀ q, Event.merged p = .merged q → l.block q < n) ↔ l.block p < n :=
      ⟨fun h => h p rfl, fun h q hq => by cases hq; exact h⟩
    rw [hall]
    rcases Nat.lt_or_ge l.loggedBlock (l.block p) with hlt | hle
    · rw [report_merged_of_lt hlt]
      exact ⟨fun h => ⟨Nat.lt_trans hlt h, h⟩, And.right⟩
    · rw [report_merged_of_le hle]
      exact ⟨fun h => ⟨h, Nat.lt_of_le_of_lt hle h⟩, And.left⟩
  · rw [(report_other (not_exists.mp h)).1]
    exact ⟨fun hlt => ⟨hlt, fun p hp => absurd ⟨p, hp⟩ h⟩, And.left⟩

/-- Each line that tells the progress takes the log at least one block further. -/
theorem count_report_le (l : Log) (e : Event) :
    (l.report e).2.countP Line.tellsProgress + l.loggedBlock ≤ (l.report e).1.loggedBlock := by
  by_cases h : ∃ p, e = .merged p
  · obtain ⟨p, rfl⟩ := h
    rcases Nat.lt_or_ge l.loggedBlock (l.block p) with hlt | hle
    · rw [report_merged_of_lt hlt, List.countP_singleton, tellsProgress_progressLine]
      show 1 + l.loggedBlock ≤ l.block p
      omega
    · rw [report_merged_of_le hle, List.countP_nil, Nat.zero_add]
  · obtain ⟨hsame, hnone⟩ := report_other (l := l) (not_exists.mp h)
    have hzero : (l.report e).2.countP Line.tellsProgress = 0 :=
      List.countP_eq_zero.mpr fun line hline => by rw [hnone line hline]; nofun
    rw [hsame, hzero, Nat.zero_add]

/-! ## All events -/

/-- The log when it has heard of these events. -/
def after (l : Log) (events : List Event) : Log :=
  events.foldl (fun l e => (l.report e).1) l

theorem length_reportAll (l : Log) (events : List Event) :
    (l.reportAll events).length = events.length := by
  induction events generalizing l with
  | nil => rfl
  | cons e rest ih => simp [reportAll, ih]

theorem interval_after (l : Log) (events : List Event) :
    (l.after events).interval = l.interval := by
  induction events generalizing l with
  | nil => rfl
  | cons e rest ih => exact (ih (l.report e).1).trans (interval_report l e)

/-- What a log answers to an event depends on those before it. -/
theorem getElem?_reportAll (l : Log) (before : List Event) (e : Event) (rest : List Event) :
    (l.reportAll (before ++ e :: rest))[before.length]? = some ((l.after before).report e).2 := by
  induction before generalizing l with
  | nil => rfl
  | cons first others ih => exact ih (l.report first).1

theorem loggedBlock_after_lt_iff :
    (l.after events).loggedBlock < n ↔
      l.loggedBlock < n ∧ ∀ p, .merged p ∈ events → l.block p < n := by
  induction events generalizing l with
  | nil => exact ⟨fun h => ⟨h, fun p hp => absurd hp List.not_mem_nil⟩, And.left⟩
  | cons e rest ih =>
    have hblock (p : Progress) : (l.report e).1.block p = l.block p := by
      rw [block, interval_report, block]
    show ((l.report e).1.after rest).loggedBlock < n ↔ _
    rw [ih, loggedBlock_report_lt_iff]
    constructor
    · rintro ⟨⟨hl, he⟩, hrest⟩
      refine ⟨hl, fun p hp => ?_⟩
      rcases List.mem_cons.mp hp with hp | hp
      · exact he p hp.symm
      · exact hblock p ▸ hrest p hp
    · rintro ⟨hl, hall⟩
      exact ⟨⟨hl, fun p hp => hall p (hp ▸ List.mem_cons_self)⟩,
        fun p hp => (hblock p).symm ▸ hall p (List.mem_cons_of_mem _ hp)⟩

theorem count_reportAll_le (l : Log) (events : List Event) :
    (l.reportAll events).flatten.countP Line.tellsProgress + l.loggedBlock ≤
      (l.after events).loggedBlock := by
  induction events generalizing l with
  | nil => exact Nat.le_of_eq (Nat.zero_add _)
  | cons e rest ih =>
    have hfirst := count_report_le l e
    have hrest := ih (l.report e).1
    show ((l.report e).2 ++ ((l.report e).1.reportAll rest).flatten).countP _ + _ ≤
      ((l.report e).1.after rest).loggedBlock
    rw [List.countP_append]
    omega

/-! ## A new log -/

theorem block_ofInterval (interval : Nat) (p : Progress) :
    ((ofInterval interval).after before).block p = blockOf interval p := by
  rw [block, interval_after]
  rfl

/-- A new log has come to the largest block of the merged tracks, or to none. -/
theorem loggedBlock_lt_iff :
    ((ofInterval interval).after before).loggedBlock < blockOf interval p ↔
      Advances interval before p :=
  loggedBlock_after_lt_iff

theorem answer_of_advances (h : Advances interval before p) :
    (((ofInterval interval).after before).report (.merged p)).2 = [progressLine p] := by
  rw [report_merged_of_lt]
  rw [block_ofInterval]
  exact loggedBlock_lt_iff.mpr h

theorem answer_of_not_advances (h : ¬Advances interval before p) :
    (((ofInterval interval).after before).report (.merged p)).2 = [] := by
  rw [report_merged_of_le]
  rw [block_ofInterval]
  exact Nat.le_of_not_lt fun hlt => h (loggedBlock_lt_iff.mp hlt)

end Log

/-! ## The log of a merging -/

variable {policy : FailurePolicy} {store : Store} {results taken : List Result} {r : Result}
  {events before rest : List Event} {result : Except Halt (Store × Summary)} {p q : Progress}
  {total interval : Nat}

/-- A merging reports results one by one, and perhaps a summary behind them. -/
theorem exists_reports (h : mergeAll policy store results = (events, result)) :
    ∃ taken others reports, results = taken ++ others ∧
      Reports results.length [] taken reports ∧
      (events = reports ∨ ∃ summary, events = reports ++ [.finished summary]) := by
  rcases result with (f | misuse) | ⟨filled, summary⟩
  · obtain ⟨-, taken, path, failure, others, hsplit, -, -, hreports⟩ := reports_of_failed h
    exact ⟨taken ++ [(path, .error failure)], others, events, by simpa using hsplit, hreports,
      .inl rfl⟩
  · obtain ⟨taken, path, counts, others, hsplit, hreports⟩ := reports_of_misused h
    exact ⟨taken, (path, .ok counts) :: others, events, hsplit, hreports, .inl rfl⟩
  · obtain ⟨⟨reports, hevents, hreports⟩, -⟩ := reports_of_ok h
    exact ⟨results, [], reports, (List.append_nil _).symm, hreports, .inr ⟨summary, hevents⟩⟩

theorem done_of_eventOf (h : eventOf total taken r = .merged p) :
    p.done = taken.length + 1 ∧ p.total = total := by
  obtain ⟨path, failure | counts⟩ := r
  · cases h
  · cases h
    exact ⟨rfl, rfl⟩

/-- A merged track is reported with the number of tracks that are done, failed ones included. -/
theorem done_of_merged (h : mergeAll policy store results = (events, result))
    (hsplit : events = before ++ .merged p :: rest) :
    p.done = before.length + 1 ∧ p.total = results.length ∧ p.done ≤ results.length := by
  obtain ⟨taken, others, reports, hresults, hreports, hevents⟩ := exists_reports h
  have hat : events[before.length]? = some (.merged p) := by
    rw [hsplit, List.getElem?_append_right (Nat.le_refl _), Nat.sub_self]
    rfl
  have hget : reports[before.length]? = some (.merged p) := by
    rcases hevents with rfl | ⟨summary, rfl⟩
    · exact hat
    rcases Nat.lt_or_ge before.length reports.length with hlt | hge
    · rwa [List.getElem?_append_left hlt] at hat
    · rw [List.getElem?_append_right hge] at hat
      cases List.mem_singleton.mp (List.mem_of_getElem? hat)
  have hlt : before.length < taken.length := by
    rw [← hreports.length_eq]
    exact (List.getElem?_eq_some_iff.mp hget).1
  have hevent := hreports.getElem?_eq hlt
  rw [hget, Option.some.injEq, List.nil_append] at hevent
  obtain ⟨hdone, htotal⟩ := done_of_eventOf hevent.symm
  rw [List.length_take_of_le (Nat.le_of_lt hlt)] at hdone
  refine ⟨hdone, htotal, ?_⟩
  rw [hdone, hresults, List.length_append]
  omega

theorem mem_merged (h : mergeAll policy store results = (events, result))
    (hmem : .merged p ∈ events) : p.done ≤ results.length := by
  obtain ⟨before, rest, hsplit⟩ := List.append_of_mem hmem
  exact (done_of_merged h hsplit).2.2

/-- A merged track is a step into another block when the tracks that failed before it have filled
the last one. -/
theorem advances_of_failed (h : mergeAll policy store results = (events, result))
    {failures : List Event} (hsplit : events = before ++ (failures ++ .merged p :: rest))
    (hfailures : ∀ e ∈ failures, ∃ path f, e = .failed path f)
    (hcrossed : before.length / max interval 1 <
      (before.length + failures.length) / max interval 1) :
    Advances interval (before ++ failures) p := by
  have hdone : p.done = before.length + failures.length + 1 := by
    rw [← List.append_assoc] at hsplit
    rw [(done_of_merged h hsplit).1, List.length_append]
  have hblock : (before.length + failures.length) / max interval 1 ≤ blockOf interval p :=
    Nat.div_le_div_right (hdone ▸ Nat.le_succ _)
  have hbeyond := Nat.lt_of_lt_of_le hcrossed hblock
  refine ⟨Nat.zero_lt_of_lt hbeyond, fun q hq => Nat.lt_of_le_of_lt ?_ hbeyond⟩
  rcases List.mem_append.mp hq with hq | hq
  · obtain ⟨earlier, later, rfl⟩ := List.append_of_mem hq
    rw [List.append_assoc, List.cons_append] at hsplit
    have hle : q.done ≤ (earlier ++ .merged q :: later).length := by
      rw [(done_of_merged h hsplit).1, List.length_append, List.length_cons]
      omega
    exact Nat.div_le_div_right hle
  · obtain ⟨path, f, hf⟩ := hfailures _ hq
    cases hf

/-- There are no more lines that tell the progress than blocks are full in the end. -/
theorem count_progress_le (h : mergeAll policy store results = (events, result)) (interval : Nat) :
    ((Log.ofInterval interval).reportAll events).flatten.countP Line.tellsProgress ≤
      results.length / max interval 1 := by
  have hcount := Log.count_reportAll_le (Log.ofInterval interval) events
  have hlast : ((Log.ofInterval interval).after events).loggedBlock <
      results.length / max interval 1 + 1 := by
    refine Log.loggedBlock_after_lt_iff.mpr ⟨Nat.succ_pos _, fun p hp => Nat.lt_succ_of_le ?_⟩
    exact Nat.div_le_div_right (mem_merged h hp)
  omega

/-- Whatever tracks are merged and whichever of them fail, a new log answers to every event. It
tells the progress with a merged track exactly if that is in a block beyond those of all merged
tracks before it, and with no other event. So of two tracks it tells the progress with, the later
one is in a later block, a block that a failed track fills is told with the next track that is
merged, and there is at most one such line for each block of tracks. -/
theorem blocks_told_once (h : mergeAll policy store results = (events, result)) (interval : Nat) :
    let logged := (Log.ofInterval interval).reportAll events
    logged.length = events.length ∧
    (∀ (before rest : List Event) (p : Progress),
      events = before ++ .merged p :: rest →
      p.done = before.length + 1 ∧ p.total = results.length ∧
      (Advances interval before p ↔ logged[before.length]? = some [progressLine p]) ∧
      (¬Advances interval before p ↔ logged[before.length]? = some [])) ∧
    (∀ (before rest : List Event) (e : Event), events = before ++ e :: rest →
      (∀ p, e ≠ .merged p) →
      ∃ lines, logged[before.length]? = some lines ∧
        ∀ line ∈ lines, line.tellsProgress = false) ∧
    (∀ (before between rest : List Event) (q p : Progress),
      events = before ++ .merged q :: (between ++ .merged p :: rest) →
      logged[before.length]? = some [progressLine q] →
      logged[before.length + 1 + between.length]? = some [progressLine p] →
      blockOf interval q < blockOf interval p) ∧
    (∀ (before failures rest : List Event) (p : Progress),
      events = before ++ (failures ++ .merged p :: rest) →
      (∀ e ∈ failures, ∃ path f, e = .failed path f) →
      before.length / max interval 1 < (before.length + failures.length) / max interval 1 →
      logged[before.length + failures.length]? = some [progressLine p]) ∧
    logged.flatten.countP Line.tellsProgress ≤ results.length / max interval 1 := by
  intro logged
  have hanswer (before rest : List Event) (p : Progress)
      (hsplit : events = before ++ .merged p :: rest) :
      (Advances interval before p ↔ logged[before.length]? = some [progressLine p]) ∧
      (¬Advances interval before p ↔ logged[before.length]? = some []) := by
    have hat : logged[before.length]? = _ :=
      hsplit ▸ Log.getElem?_reportAll (Log.ofInterval interval) before (.merged p) rest
    rw [hat]
    by_cases hadvances : Advances interval before p
    · rw [Log.answer_of_advances hadvances]
      simp [hadvances]
    · rw [Log.answer_of_not_advances hadvances]
      simp [hadvances]
  refine ⟨Log.length_reportAll _ _, fun before rest p hsplit => ?_,
    fun before rest e hsplit he => ?_, fun before between rest q p hsplit _ hp => ?_,
    fun before failures rest p hsplit hfailures hcrossed => ?_, count_progress_le h interval⟩
  · obtain ⟨hdone, htotal, -⟩ := done_of_merged h hsplit
    exact ⟨hdone, htotal, hanswer before rest p hsplit⟩
  · refine ⟨_, hsplit ▸ Log.getElem?_reportAll (Log.ofInterval interval) before e rest, ?_⟩
    exact (Log.report_other he).2
  · have hbehind : events = (before ++ .merged q :: between) ++ .merged p :: rest := by
      rw [hsplit, List.append_assoc, List.cons_append]
    have hlength : before.length + 1 + between.length =
        (before ++ .merged q :: between).length := by
      rw [List.length_append, List.length_cons]
      omega
    rw [hlength] at hp
    have hadvances := (hanswer _ rest p hbehind).1.mpr hp
    exact hadvances.2 q (List.mem_append_right _ List.mem_cons_self)
  · have hbehind : events = (before ++ failures) ++ .merged p :: rest := by
      rw [hsplit, List.append_assoc]
    rw [← List.length_append]
    exact (hanswer _ rest p hbehind).1.mp (advances_of_failed h hsplit hfailures hcrossed)

/-- The results of three tracks, the second one of them without points. -/
def threeResults : List Result :=
  [("b", .ok [(0, 0xffffffff), (1, 1)]), ("c", .error (.malformedTrack "c" .noPoints)),
    ("a", .ok [(0, 2)])]

/-- The second of three tracks fails and fills a block of two, which is told with the third. -/
theorem block_told_after_failure :
    ∃ events result, mergeAll .bestEffort ⟨"index", 0, Array.replicate 2 0, false⟩ threeResults =
        (events, result) ∧
      ((Log.ofInterval 2).reportAll events)[2]? = some [progressLine ⟨3, 3, 4294967298⟩] ∧
      ((Log.ofInterval 2).reportAll events).flatten.countP Line.tellsProgress ≤ 1 := by
  have hmerge : mergeAll .bestEffort ⟨"index", 0, Array.replicate 2 0, false⟩ threeResults =
    _ := rfl
  obtain ⟨-, -, -, -, hfilled, hcount⟩ := blocks_told_once hmerge 2
  refine ⟨_, _, hmerge, ?_, hcount⟩
  exact hfilled [.merged ⟨1, 3, 4294967296⟩] [.failed "c" (.malformedTrack "c" .noPoints)] _ _ rfl
    (fun e he => ⟨_, _, List.mem_singleton.mp he⟩) (by decide)

end Ridership.Build
