import Ridership.Proofs.Build.Filling
import Ridership.Proofs.Store.Creation
import Ridership.Proofs.Store.Flushing

/-!
# What builds leave behind

A build ends in one of five ways. In all of them every other file is as it was, and only a build
that succeeds leaves an index that was not there before: a refused build does nothing, one that
fails removes its file, and one that is stopped by an edge out of range leaves a file of zeros.
-/

namespace Ridership.Build

open Disk (Made Confined Rewrites SameBranches)

variable {sched : Scheduling} {d : Disk} {path : String} {network : Extent}
  {source : Option Source}

/-- The ways in which a build ends. -/
inductive Ending (sched : Scheduling) (d : Disk) (path : String) (network : Extent)
    (source : Option Source) : Outcome → Prop
  | uncreated {d₁ : Disk} {f : Failure} (create : Store.create d path network = (d₁, .error f)) :
      Ending sched d path network source ⟨d₁, [], .error (.failed f)⟩
  | unfilled {d₁ : Disk} {store : Store} {events : List Event} {f : Failure}
      (create : Store.create d path network = (d₁, .ok store))
      (fill : fillFrom sched d₁ store source = (events, .error (.failed f))) :
      Ending sched d path network source ⟨discard d₁ path, events, .error (.failed f)⟩
  | misused {d₁ : Disk} {store : Store} {events : List Event} {m : Misuse}
      (create : Store.create d path network = (d₁, .ok store))
      (fill : fillFrom sched d₁ store source = (events, .error (.misused m))) :
      Ending sched d path network source ⟨d₁, events, .error (.misused m)⟩
  | unflushed {d₁ d₂ : Disk} {store filled : Store} {events : List Event} {summary : Summary}
      {f : Failure} (create : Store.create d path network = (d₁, .ok store))
      (fill : fillFrom sched d₁ store source = (events, .ok (filled, summary)))
      (flush : filled.flush d₁ = (d₂, .error f)) :
      Ending sched d path network source ⟨discard d₂ path, events, .error (.failed f)⟩
  | built {d₁ d₂ : Disk} {store filled : Store} {events : List Event} {summary : Summary}
      (create : Store.create d path network = (d₁, .ok store))
      (fill : fillFrom sched d₁ store source = (events, .ok (filled, summary)))
      (flush : filled.flush d₁ = (d₂, .ok ())) :
      Ending sched d path network source ⟨d₂, events, .ok (filled, summary)⟩

theorem prepare_ending (sched : Scheduling) (d : Disk) (path : String) (network : Extent)
    (source : Option Source) :
    Ending sched d path network source (prepare sched d path network source) := by
  unfold prepare
  rcases hc : Store.create d path network with ⟨d₁, f | store⟩
  · exact .uncreated hc
  · rcases hf : fillFrom sched d₁ store source with ⟨events, (f | m) | ⟨filled, summary⟩⟩
    · simp only [hf]
      exact .unfilled hc hf
    · simp only [hf]
      exact .misused hc hf
    · rcases hw : filled.flush d₁ with ⟨d₂, f | _⟩
      · simp only [hf, hw]
        exact .unflushed hc hf hw
      · simp only [hf, hw]
        exact .built hc hf hw

/-! ## The disk at each ending -/

/-- A store that was created has its file at the path, and the file is no index. -/
theorem made_of_created {d₁ : Disk} {store : Store}
    (h : Store.create d path network = (d₁, .ok store)) :
    ∃ p, Made path p store.file d d₁ ∧ ¬Index.Current (d₁.content store.file) := by
  have hcreated := Store.create_created d path network
  rw [h] at hcreated
  cases hcreated with
  | created _ made zeros =>
    refine ⟨_, made, ?_⟩
    rw [zeros]
    exact Index.not_current_replicate _

/-- The file of a store that was filled and flushed is the one that was created with it. -/
theorem made_of_flush {d₁ d₂ : Disk} {store filled : Store} {events : List Event}
    {summary : Summary} {r : Except Failure Unit}
    (hcreate : Store.create d path network = (d₁, .ok store))
    (hfill : fillFrom sched d₁ store source = (events, .ok (filled, summary)))
    (hflush : filled.flush d₁ = (d₂, r)) : ∃ p, Made path p store.file d d₂ := by
  obtain ⟨p, hmade, -⟩ := made_of_created hcreate
  have hr : Rewrites filled.file d₁ (filled.flush d₁).1 := Store.rewrites_flush filled d₁
  rw [hflush, (recounts_fillFrom hfill).file_eq] at hr
  exact ⟨p, hmade.rewrites hr⟩

/-- A store that was filled and flushed without a failure has the image of its records in the file
at the path. -/
theorem image_of_flush {d₁ d₂ : Disk} {store filled : Store} {events : List Event}
    {summary : Summary} (hcreate : Store.create d path network = (d₁, .ok store))
    (hfill : fillFrom sched d₁ store source = (events, .ok (filled, summary)))
    (hflush : filled.flush d₁ = (d₂, .ok ())) :
    d₂.openFile path = .ok store.file ∧ d₂.content store.file = Index.image filled.records := by
  have hr := recounts_fillFrom hfill
  obtain ⟨p, hmade⟩ := made_of_flush hcreate hfill hflush
  refine ⟨hmade.openFile, ?_⟩
  have hcreated := Store.create_created d path network
  rw [hcreate] at hcreated
  cases hcreated with
  | @created _ _ id n _ made zeros =>
    obtain rfl : filled.file = id := hr.file_eq
    obtain rfl : filled.records.size = n := hr.size_eq.trans Array.size_replicate
    show d₂.content filled.file = _
    rw [Store.content_of_flush made.lt_length hflush]
    apply Index.overwritten_eq_image
    rw [zeros, List.length_replicate]

/-- A file that was made is gone when it is discarded. -/
theorem discard_made {d₁ : Disk} {p : Disk.Place} {id : FileId} (hmade : Made path p id d d₁)
    (hlink : ¬d.IsLink path) :
    Confined p id d (discard d₁ path) ∧ (discard d₁ path).openFile path = .error .notFound := by
  obtain ⟨d₂, hremove, hconfined, hgone⟩ := hmade.remove hlink
  simp only [discard, hremove]
  exact ⟨hconfined, hgone⟩

/-- Nothing has changed but perhaps a single file that was made at the path. -/
def Touched (path : String) (d d' : Disk) : Prop :=
  d' = d ∨ ∃ p id d₁, Made path p id d d₁ ∧ Confined p id d d'

/-- The second disk has the folders and links of the first, and at all paths but one also its
files, with the content they had. -/
structure OthersKept (path : String) (d d' : Disk) : Prop where
  branches : SameBranches d d'
  kept : ∀ q other, d.openFile q = .ok other → d.openFile path ≠ .ok other →
    d'.openFile q = .ok other ∧ d'.content other = d.content other
  none_added : ∀ q other, d'.openFile q = .ok other → d'.openFile path ≠ .ok other →
    d.openFile q = .ok other

theorem Touched.othersKept {d' : Disk} (h : Touched path d d') : OthersKept path d d' := by
  rcases h with rfl | ⟨p, id, d₁, hmade, hconfined⟩
  · exact ⟨fun _ => rfl, fun q other ho _ => ⟨ho, rfl⟩, fun q other ho _ => ho⟩
  · refine ⟨hconfined.sameBranches, fun q other ho hne => ?_, fun q other ho hne => ?_⟩
    · exact hconfined.other_file ho (hmade.other_ne ho hne)
    · rcases hconfined.appeared ho with hold | ⟨rfl, hpresent⟩
      · exact hold
      · exact absurd (hmade.openFile_of_confined hconfined hpresent) hne

/-- At each ending at most the file at the path is touched. -/
theorem Ending.touched {o : Outcome} (h : Ending sched d path network source o)
    (hlink : ¬d.IsLink path) : Touched path d o.disk := by
  cases h with
  | uncreated create =>
    have hcreated := Store.create_created d path network
    rw [create] at hcreated
    cases hcreated with
    | refused | unopened => exact .inl rfl
    | unsized made _ => exact .inr ⟨_, _, _, made, made.confined⟩
  | unfilled create fill =>
    obtain ⟨p, hmade, -⟩ := made_of_created create
    exact .inr ⟨_, _, _, hmade, (discard_made hmade hlink).1⟩
  | misused create fill =>
    obtain ⟨p, hmade, -⟩ := made_of_created create
    exact .inr ⟨_, _, _, hmade, hmade.confined⟩
  | unflushed create fill flush =>
    obtain ⟨p, hmade⟩ := made_of_flush create fill flush
    exact .inr ⟨_, _, _, hmade, (discard_made hmade hlink).1⟩
  | built create fill flush =>
    obtain ⟨p, hmade⟩ := made_of_flush create fill flush
    exact .inr ⟨_, _, _, hmade, hmade.confined⟩

/-- No store can be loaded from a path, whatever the network. -/
def NoIndex (d : Disk) (path : String) : Prop :=
  ∀ network s, Store.load d path network ≠ .ok (some s)

theorem noIndex_of_notFound (h : d.openFile path = .error .notFound) : NoIndex d path := by
  intro network s hload
  obtain ⟨-, -, id, _, hopen, -⟩ := Store.load_eq_some_iff.mp hload
  rw [h] at hopen
  cases hopen

theorem noIndex_of_made {d₁ : Disk} {p : Disk.Place} {id : FileId} (hmade : Made path p id d d₁)
    (h : ¬Index.Current (d₁.content id)) : NoIndex d₁ path :=
  fun _ s => Store.load_ne_some hmade.openFile h s

/-- A build that does not succeed changes nothing, or leaves no index. -/
theorem Ending.noIndex {o : Outcome} (h : Ending sched d path network source o)
    (hlink : ¬d.IsLink path) (hfail : ∀ r, o.result ≠ .ok r) :
    o.disk = d ∨ NoIndex o.disk path := by
  cases h with
  | uncreated create =>
    have hcreated := Store.create_created d path network
    rw [create] at hcreated
    cases hcreated with
    | refused | unopened => exact .inl rfl
    | unsized made empty =>
      refine .inr (noIndex_of_made made ?_)
      rw [empty]
      exact Index.not_current_replicate 0
  | unfilled create fill =>
    obtain ⟨p, hmade, -⟩ := made_of_created create
    exact .inr (noIndex_of_notFound (discard_made hmade hlink).2)
  | misused create fill =>
    obtain ⟨p, hmade, hzeros⟩ := made_of_created create
    exact .inr (noIndex_of_made hmade hzeros)
  | unflushed create fill flush =>
    obtain ⟨p, hmade⟩ := made_of_flush create fill flush
    exact .inr (noIndex_of_notFound (discard_made hmade hlink).2)
  | built create fill flush => exact absurd rfl (hfail _)

/-! ## What is promised of a build -/

theorem prepare_refused (sched : Scheduling) (d : Disk) (path : String) (source : Option Source)
    (h : network.contracted = true ∨ UInt32.size < network.edgeCount) :
    ∃ c, prepare sched d path network source = ⟨d, [], .error (.failed (.configuration c))⟩ := by
  obtain ⟨c, hc⟩ := Extent.admitted_error h
  refine ⟨c, ?_⟩
  simp only [prepare, Store.create, hc]

/-- A build that succeeded has created, filled and flushed a store. -/
theorem built_of_prepare {filled : Store} {summary : Summary}
    (h : (prepare sched d path network source).result = .ok (filled, summary)) :
    ∃ d₁ store events, Store.create d path network = (d₁, .ok store) ∧
      fillFrom sched d₁ store source = (events, .ok (filled, summary)) ∧
      filled.flush d₁ = ((prepare sched d path network source).disk, .ok ()) := by
  have hending := prepare_ending sched d path network source
  generalize prepare sched d path network source = outcome at h hending
  cases hending with
  | uncreated _ | unfilled _ _ | misused _ _ | unflushed _ _ _ => cases h
  | built create fill flush =>
    cases h
    exact ⟨_, _, _, create, fill, flush⟩

theorem prepare_unfilled {d₁ : Disk} {store : Store} {events : List Event} {f : Failure}
    (hlink : ¬d.IsLink path) (hcreate : Store.create d path network = (d₁, .ok store))
    (hfill : fillFrom sched d₁ store source = (events, .error (.failed f))) :
    (prepare sched d path network source).result = .error (.failed f) ∧
      (prepare sched d path network source).disk.openFile path = .error .notFound := by
  have hbuild : prepare sched d path network source =
      ⟨discard d₁ path, events, .error (.failed f)⟩ := by simp only [prepare, hcreate, hfill]
  obtain ⟨p, hmade, -⟩ := made_of_created hcreate
  rw [hbuild]
  exact ⟨rfl, (discard_made hmade hlink).2⟩

theorem prepare_unflushed {d₁ d₂ : Disk} {store filled : Store} {events : List Event}
    {summary : Summary} {f : Failure}
    (hlink : ¬d.IsLink path) (hcreate : Store.create d path network = (d₁, .ok store))
    (hfill : fillFrom sched d₁ store source = (events, .ok (filled, summary)))
    (hflush : filled.flush d₁ = (d₂, .error f)) :
    (prepare sched d path network source).result = .error (.failed f) ∧
      (prepare sched d path network source).disk.openFile path = .error .notFound := by
  have hbuild : prepare sched d path network source =
      ⟨discard d₂ path, events, .error (.failed f)⟩ := by
    simp only [prepare, hcreate, hfill, hflush]
  obtain ⟨p, hmade⟩ := made_of_flush hcreate hfill hflush
  rw [hbuild]
  exact ⟨rfl, (discard_made hmade hlink).2⟩

/-- A build that is stopped by a misuse leaves a file that is no index. -/
theorem prepare_misused {d₁ : Disk} {store : Store} {events : List Event} {m : Misuse}
    (hcreate : Store.create d path network = (d₁, .ok store))
    (hfill : fillFrom sched d₁ store source = (events, .error (.misused m))) :
    (prepare sched d path network source).result = .error (.misused m) ∧
      (∃ id, (prepare sched d path network source).disk.openFile path = .ok id) ∧
      NoIndex (prepare sched d path network source).disk path := by
  have hbuild : prepare sched d path network source = ⟨d₁, events, .error (.misused m)⟩ := by
    simp only [prepare, hcreate, hfill]
  obtain ⟨p, hmade, hzeros⟩ := made_of_created hcreate
  rw [hbuild]
  exact ⟨rfl, ⟨_, hmade.openFile⟩, noIndex_of_made hmade hzeros⟩

/-- A build at a path that is not that of a link changes no other file, and leaves no new index
unless it succeeds. A refused build does nothing, and one that fails leaves no file. -/
theorem failed_build_leaves_no_index (sched : Scheduling) {d : Disk} {path : String}
    (hlink : ¬d.IsLink path) (network : Extent) (source : Option Source) :
    let outcome := prepare sched d path network source
    (network.contracted = true ∨ UInt32.size < network.edgeCount →
      outcome.disk = d ∧ ∃ c, outcome.result = .error (.failed (.configuration c))) ∧
    (∀ d₁ store, Store.create d path network = (d₁, .ok store) →
      (∀ events f, fillFrom sched d₁ store source = (events, .error (.failed f)) →
        outcome.result = .error (.failed f) ∧
          outcome.disk.openFile path = .error .notFound) ∧
      (∀ events filled summary d₂ f,
        fillFrom sched d₁ store source = (events, .ok (filled, summary)) →
          filled.flush d₁ = (d₂, .error f) →
            outcome.result = .error (.failed f) ∧
              outcome.disk.openFile path = .error .notFound) ∧
      (∀ events m, fillFrom sched d₁ store source = (events, .error (.misused m)) →
        outcome.result = .error (.misused m) ∧ (∃ id, outcome.disk.openFile path = .ok id) ∧
          NoIndex outcome.disk path)) ∧
    OthersKept path d outcome.disk ∧
    ((∀ r, outcome.result ≠ .ok r) → outcome.disk = d ∨ NoIndex outcome.disk path) := by
  intro outcome
  have hending : Ending sched d path network source outcome := prepare_ending ..
  refine ⟨fun h => ?_, fun d₁ store hcreate => ⟨?_, ?_, ?_⟩, ?_, ?_⟩
  · obtain ⟨c, hc⟩ := prepare_refused sched d path source h
    exact ⟨congrArg Outcome.disk hc, c, congrArg Outcome.result hc⟩
  · exact fun events f hfill => prepare_unfilled hlink hcreate hfill
  · exact fun events filled summary d₂ f hfill hflush =>
      prepare_unflushed hlink hcreate hfill hflush
  · exact fun events m hfill => prepare_misused hcreate hfill
  · exact (hending.touched hlink).othersKept
  · exact hending.noIndex hlink

/-- An index is built over an older one, from a folder that is no folder but the index itself. -/
theorem build_from_index_fails :
    ¬(Index.soleFile (Index.image #[7])).IsLink "index" ∧
      (prepare {} (Index.soleFile (Index.image #[7])) "index" ⟨1, false⟩
        (some (.tracks "index" ⟨fun _ => none, 5⟩ .bestEffort))).disk.openFile "index" =
          .error .notFound := by
  have hlink : ¬(Index.soleFile (Index.image #[7])).IsLink "index" := by
    rintro ⟨p, target, -, hnode⟩
    obtain ⟨place, hmem⟩ := Disk.mem_of_node? hnode nofun
    cases hmem with
    | tail _ h => cases h
  have hcreate : Store.create (Index.soleFile (Index.image #[7])) "index" ⟨1, false⟩ =
      (Index.soleFile (List.replicate 8 0), .ok ⟨"index", 0, #[0], false⟩) := by
    have hopened : (Index.soleFile (Index.image #[7])).create "index" =
        .ok (Index.soleFile [], 0) := by
      rw [Disk.create, Index.locate_soleFile]
      rfl
    have hadmitted : Extent.admitted ⟨1, false⟩ = .ok 1 := rfl
    simp only [Store.create, hopened, hadmitted]
    rfl
  have hfiles : Track.files (Index.soleFile (List.replicate 8 0)) "index" =
      .error (.io "index" (.disk .notAFolder)) := by
    simp only [Track.files, Disk.entries, Index.locate_soleFile, bind, Except.bind]
    rfl
  have hfill : fillFrom {} (Index.soleFile (List.replicate 8 0)) ⟨"index", 0, #[0], false⟩
      (some (.tracks "index" ⟨fun _ => none, 5⟩ .bestEffort)) =
        ([], .error (.failed (.io "index" (.disk .notAFolder)))) := by
    simp only [fillFrom, Source.fill, Source.fillFromTracks, hfiles]
  obtain ⟨-, hfailed, -⟩ := failed_build_leaves_no_index {} hlink ⟨1, false⟩ _
  exact ⟨hlink, ((hfailed _ _ hcreate).1 _ _ hfill).2⟩

end Ridership.Build
