import Mathlib
import Ridership.Build.Prepare
import Ridership.Proofs.Build.Totals
import Ridership.Proofs.Store.Creation
import Ridership.Proofs.Store.Flushing

/-!
# Building an index from tracks

When nothing fails but tracks that the policy tolerates, the index that is built has for every edge
the rides that all the tracks confirm together, or the largest number. Neither the workers nor the
bytes that were at its path before make a difference, and a store is loaded from it that has the
same counters.
-/

namespace Ridership

open Disk (Made)

/-- A file that is not marked as gzip is read as it is. -/
theorem Disk.readPlain_of_plain {d : Disk} {path : String} {bytes : Bytes}
    (hread : d.read path = .ok bytes) (hplain : Gzip.plain bytes = .ok bytes) :
    d.readPlain path = .ok bytes := by
  simp only [readPlain, hread, hplain, Except.mapError, bind, Except.bind]

namespace Build

variable {sched : Scheduling} {d : Disk} {path folder : String} {network : Extent}
  {matcher : Snap.Matcher} {policy : FailurePolicy} {files : List String}

/-- The workers start, each result arrives once, and each count is visited once. -/
structure Scheduling.Fair (sched : Scheduling) : Prop where
  workers : sched.noWorkers = none
  order : ∀ files, (sched.order files).Perm files
  visit : ∀ path tally, (sched.visit path tally).Perm tally.toList

theorem Scheduling.fair_default : Scheduling.Fair {} :=
  ⟨rfl, fun _ => .refl _, fun _ _ => .refl _⟩

/-- The rides on an edge that the track at a path confirms, none when it cannot be used. -/
def ridesIn (d : Disk) (matcher : Snap.Matcher) (e : EdgeId) (file : String) : Nat :=
  match Track.load d file with
  | .ok track => matcher.rides track e
  | .error _ => 0

/-- What the tally of the track at a path has for an edge, nothing when it cannot be used. -/
def talliedIn (d : Disk) (matcher : Snap.Matcher) (e : EdgeId) (file : String) : Nat :=
  match Track.load d file with
  | .ok track => ((matcher.tally track).getD e 0).toNat
  | .error _ => 0

/-- The tracks of a folder can be counted: the policy tolerates those that fail, and the others are
not so long that a tally overflows. -/
structure Countable (d : Disk) (policy : FailurePolicy) (files : List String) : Prop where
  tolerated : policy = .bestEffort ∨ ∀ file ∈ files, ∃ track, Track.load d file = .ok track
  short : ∀ file ∈ files, ∀ track, Track.load d file = .ok track →
    track.length < 2 * UInt32.size

namespace Source

theorem contribution_resultOf (hvisit : ∀ path tally, (sched.visit path tally).Perm tally.toList)
    (e : EdgeId) (file : String) :
    contribution e (resultOf sched d matcher file) = talliedIn d matcher e file := by
  unfold contribution resultOf talliedIn
  cases hload : Track.load d file with
  | error f => rfl
  | ok track =>
    show Store.added (sched.visit file (matcher.tally track)) e = _
    rw [Store.added_perm (hvisit _ _), Store.added_toList]

theorem talliedIn_of_short {file : String}
    (hshort : ∀ track, Track.load d file = .ok track → track.length < 2 * UInt32.size)
    (e : EdgeId) : talliedIn d matcher e file = ridesIn d matcher e file := by
  unfold talliedIn ridesIn
  cases hload : Track.load d file with
  | error f => rfl
  | ok track => exact Snap.Matcher.toNat_tally (hshort track hload) e

theorem inRange_resultOf (hvisit : ∀ path tally, (sched.visit path tally).Perm tally.toList)
    {edgeCount : Nat} {file : String}
    (hin : ∀ p hit, matcher.locate p = some hit → hit.edge.toNat < edgeCount) :
    InRange edgeCount (resultOf sched d matcher file) := by
  unfold InRange resultOf
  rintro counts hcounts ⟨e, n⟩ hc
  obtain ⟨track, -, rfl⟩ := map_eq_ok hcounts
  have htally : e ∈ matcher.tally track := Tally.mem_of_mem_toList ((hvisit _ _).mem_iff.mp hc)
  obtain ⟨p, hit, hlocate, rfl⟩ := Snap.Matcher.located_of_mem_tally htally
  exact hin p hit hlocate

theorem inRange_results (hvisit : ∀ path tally, (sched.visit path tally).Perm tally.toList)
    {edgeCount : Nat} (hin : ∀ p hit, matcher.locate p = some hit → hit.edge.toNat < edgeCount)
    (paths : List String) :
    ∀ r ∈ paths.map (resultOf sched d matcher), InRange edgeCount r := by
  intro r hr
  obtain ⟨file, -, rfl⟩ := List.mem_map.mp hr
  exact inRange_resultOf hvisit hin

/-- The order of the tracks does not matter for what they add. -/
theorem contributions_resultOf (hsched : sched.Fair) (e : EdgeId) :
    contributions ((sched.order files).map (resultOf sched d matcher)) e =
      (files.map (talliedIn d matcher e)).sum := by
  rw [contributions_perm ((hsched.order files).map _), contributions, List.map_map]
  congr 1
  exact List.map_congr_left fun file _ => contribution_resultOf hsched.visit e file

theorem sum_talliedIn (hc : Countable d policy files) (e : EdgeId) :
    (files.map (talliedIn d matcher e)).sum = (files.map (ridesIn d matcher e)).sum := by
  congr 1
  exact List.map_congr_left fun file hmem => talliedIn_of_short (hc.short file hmem) e

/-- A new store that is filled from the tracks of a folder holds their rides. -/
theorem fillFromTracks_holds (hsched : sched.Fair) {store : Store}
    (hw : store.readOnly = false) (hzero : store.Holds fun _ => 0)
    (hin : ∀ p hit, matcher.locate p = some hit → hit.edge.toNat < store.records.size)
    (hfiles : Track.files d folder = .ok files) (hc : Countable d policy files) :
    ∃ events filled summary,
      fillFromTracks sched d folder matcher policy store = (events, .ok (filled, summary)) ∧
      filled.Holds fun e => (files.map (ridesIn d matcher e)).sum := by
  have hrange := inRange_results (d := d) hsched.visit hin (sched.order files)
  have htolerated : ∀ r ∈ (sched.order files).map (resultOf sched d matcher),
      Tolerated policy r := by
    intro r hr
    obtain ⟨file, hmem, rfl⟩ := List.mem_map.mp hr
    refine hc.tolerated.imp_right fun hload => ?_
    obtain ⟨track, htrack⟩ := hload file ((hsched.order files).mem_iff.mp hmem)
    exact ⟨_, by rw [resultOf, htrack]; rfl⟩
  obtain ⟨events, filled, summary, hmerge, hholds⟩ := mergeAll_holds hw hrange htolerated hzero
  refine ⟨events, filled, summary, ?_, ?_⟩
  · simp only [fillFromTracks, hfiles, hsched.workers, hmerge]
  · simpa only [contributions_resultOf hsched, sum_talliedIn hc, Nat.add_zero] using hholds

end Source

/-- A store that was created and filled is flushed to its path as an index. -/
theorem flush_filled {d₁ : Disk} {p : Disk.Place} {store filled : Store}
    (hmade : Made path p store.file d d₁)
    (hd : d₁.Affords (Index.byteSize store.records.size + Index.headerSize) 2)
    (hzeros : d₁.content store.file = List.replicate (Index.byteSize store.records.size) 0)
    (hw : store.readOnly = false) (hr : store.Recounts filled) :
    ∃ d₂, filled.flush d₁ = (d₂, .ok ()) ∧ d₂.openFile path = .ok store.file ∧
      d₂.content store.file = Index.image filled.records := by
  rw [← hr.size_eq] at hd hzeros
  rw [← hr.file_eq] at hmade hzeros ⊢
  obtain ⟨d₂, hflush, hrewrites, hcontent⟩ := Store.flush_image (hr.readOnly_eq.trans hw)
    hmade.lt_length (by rw [hzeros, List.length_replicate]) hd
  exact ⟨d₂, hflush, (hmade.rewrites hrewrites).openFile, hcontent⟩

/-- An index that is built from tracks has for every edge the rides of all tracks that can be used,
as far as a counter goes, and a store with these counters is loaded from it. -/
theorem track_build_counts_rides (hsched : sched.Fair) (hbase : network.contracted = false)
    (hmax : network.edgeCount ≤ UInt32.size) {locate : Snap.Locator}
    (hin : ∀ p hit, locate p = some hit → hit.edge.toNat < network.edgeCount)
    (config : Config) (hd : d.Affords (Index.byteSize network.edgeCount + Index.headerSize) 3)
    {opened : Disk × FileId} (hopen : d.create path = .ok opened)
    (hfiles : Track.files (Store.create d path network).1 folder = .ok files)
    (hc : Countable (Store.create d path network).1 config.failurePolicy files) :
    let matcher : Snap.Matcher := ⟨locate, config.maxSnapDistance⟩
    let outcome := prepare sched d path network
      (some (.tracks folder matcher config.failurePolicy))
    ∃ records : Array UInt32, records.size = network.edgeCount ∧
      (∀ e : EdgeId, ∀ h : e.toNat < records.size, records[e.toNat].toNat =
        min maxCount
          ((files.map (ridesIn (Store.create d path network).1 matcher e)).sum)) ∧
      (∃ built, outcome.result = .ok built ∧ built.1.records = records) ∧
      outcome.disk.read path = .ok (Index.image records) ∧
      ∃ s, Store.load outcome.disk path network = .ok (some s) ∧ s.readOnly = true ∧
        s.records = records ∧
        ∀ e : EdgeId, ∀ h : e.toNat < records.size, ∃ n, s.popularity e = .ok n ∧
          n.toNat = min maxCount (records[e.toNat].toNat + 1) := by
  intro matcher outcome
  have hn : network.admitted = .ok network.edgeCount :=
    Extent.admitted_eq_ok_iff.mpr ⟨hbase, hmax, rfl⟩
  obtain ⟨d₁, store, p, hcreate, hw, hrecords, hmade, hzeros, hd₁⟩ :=
    Store.create_affords hd hn hopen
  have hsize : store.records.size = network.edgeCount := by rw [hrecords, Array.size_replicate]
  rw [hcreate] at hfiles hc ⊢
  have hlocated : ∀ p hit, matcher.locate p = some hit → hit.edge.toNat < store.records.size := by
    rw [hsize]
    exact hin
  obtain ⟨events, filled, summary, hfill, hholds⟩ := Source.fillFromTracks_holds hsched hw
    (Store.holds_zeros hrecords) hlocated hfiles hc
  have hfillFrom : fillFrom sched d₁ store (some (.tracks folder matcher config.failurePolicy)) =
      (events, .ok (filled, summary)) := hfill
  have hr := recounts_fillFrom hfillFrom
  rw [← hsize] at hd₁ hzeros
  obtain ⟨d₂, hflush, hopened, hcontent⟩ := flush_filled hmade hd₁ hzeros hw hr
  have hcount : filled.records.size = network.edgeCount := hr.size_eq.trans hsize
  have hbuild : outcome = ⟨d₂, events, .ok (filled, summary)⟩ := by
    show prepare _ _ _ _ _ = _
    simp only [prepare, hcreate, hfillFrom, hflush]
  rw [hbuild]
  refine ⟨filled.records, hcount, hholds, ⟨_, rfl, rfl⟩, ?_,
    ⟨path, store.file, filled.records, true⟩, ?_, rfl, rfl, fun e he => Store.popularity_of_lt he⟩
  · simp only [Disk.read, hopened, Except.map, hcontent]
  · exact Store.load_eq_some_iff.mpr
      ⟨hbase, hmax, store.file, filled.records, hopened, hcontent, hcount, rfl⟩

/-- A track of two points at one place. -/
def twoPoints : Bytes :=
  bytesOf "\x7b\"track_points\": [\x7b\"y\": 1, \"x\": 2\x7d, \x7b\"y\": 1, \"x\": 2\x7d]\x7d"

theorem points_twoPoints : Track.points twoPoints = .ok [⟨1, 2⟩, ⟨1, 2⟩] := by
  let item : Json.Value := .object [("y", .number (.integer 1)), ("x", .number (.integer 2))]
  have hvalue : Json.Value.ofBytes twoPoints =
      .ok (.object [("track_points", .array [item, item])]) := by cbv
  have hpoint : Track.point? item = some ⟨1, 2⟩ := rfl
  have hvalid : Geo.Point.isValid ⟨1, 2⟩ = true := by decide +kernel
  rw [Track.points, hvalue]
  show Except.ok (([item, item].filterMap Track.point?).filter Geo.Point.isValid) = _
  rw [List.filterMap_cons_some hpoint, List.filterMap_cons_some hpoint, List.filterMap_nil,
    List.filter_cons_of_pos hvalid, List.filter_cons_of_pos hvalid, List.filter_nil]

theorem load_twoPoints (hread : d.read path = .ok twoPoints) :
    Track.load d path = .ok [⟨1, 2⟩, ⟨1, 2⟩] := by
  have hbytes : d.readPlain path = .ok twoPoints := Disk.readPlain_of_plain hread (by cbv)
  simp only [Track.load, hbytes, Track.parse, points_twoPoints, Except.mapError, bind, Except.bind]

/-- A disk with an index and a folder with two tracks, of which the second one is empty. -/
def travelled (index : Bytes) : Disk where
  nodes := [(["index"], .file 0), (["tracks"], .folder), (["tracks", "a"], .file 1),
    (["tracks", "b"], .file 2)]
  contents := [index, twoPoints, []]
  files_exist := by simp

theorem create_travelled (index : Bytes) :
    (travelled index).create "index" = .ok (travelled [], 0) := by
  have hlocate : (travelled index).locate "index" = .ok (.file ["index"] 0) :=
    Disk.locate_of_name (by decide) (by decide) ⟨by decide, by decide, by decide⟩ rfl
  rw [Disk.create, hlocate]
  rfl

theorem files_travelled (index : Bytes) :
    Track.files (travelled index) "tracks" = .ok ["tracks/a", "tracks/b"] := by
  have hnames : Disk.names "tracks" = ["tracks"] := by decide
  have hlocate : (travelled index).locate "tracks" = .ok (.folder ["tracks"]) := by
    rw [Disk.locate_eq_walk (by decide) (by decide) (by decide) hnames,
      Disk.walk_name ⟨by decide, by decide, by decide⟩]
    show Disk.walk _ _ ["tracks"] [] = _
    rw [Disk.walk]
  have hlisting : Track.listing (bytesOf "tracks")
      [(bytesOf "a", .file 1), (bytesOf "b", .file 2)] =
        [bytesOf "tracks/a", bytesOf "tracks/b"] := by cbv
  have hpaths : [bytesOf "tracks/a", bytesOf "tracks/b"].filterMap textOf? =
      ["tracks/a", "tracks/b"] := by decide +kernel
  simp only [Track.files, Disk.entries, hlocate, bind, Except.bind]
  show Except.ok ((Track.listing (bytesOf "tracks")
    [(bytesOf "a", .file 1), (bytesOf "b", .file 2)]).filterMap textOf?) = _
  rw [hlisting, hpaths]

/-- The first track has its two points, and the second one cannot be used. -/
theorem load_travelled (index : Bytes) :
    Track.load (travelled index) "tracks/a" = .ok [⟨1, 2⟩, ⟨1, 2⟩] ∧
      Track.load (travelled index) "tracks/b" =
        .error (.malformedTrack "tracks/b" (.json .endOfText)) := by
  have ha : (travelled index).locate "tracks/a" = .ok (.file ["tracks", "a"] 1) :=
    Disk.locate_of_names (by decide) (by decide) (by decide) (by decide)
      ⟨by decide, by decide, by decide⟩ ⟨by decide, by decide, by decide⟩ rfl rfl
  have hb : (travelled index).locate "tracks/b" = .ok (.file ["tracks", "b"] 2) :=
    Disk.locate_of_names (by decide) (by decide) (by decide) (by decide)
      ⟨by decide, by decide, by decide⟩ ⟨by decide, by decide, by decide⟩ rfl rfl
  constructor
  · refine load_twoPoints ?_
    rw [Disk.read, Disk.openFile, ha]
    rfl
  · rw [Track.load, Disk.readPlain, Disk.read, Disk.openFile, hb]
    rfl

/-- A locator that takes every position to the same edge. -/
def oneEdge : Snap.Locator :=
  fun _ => some ⟨0, 0⟩

theorem rides_twoPoints :
    (⟨oneEdge, Snap.defaultReach⟩ : Snap.Matcher).rides [⟨1, 2⟩, ⟨1, 2⟩] 0 = 1 := by
  have hreach : decide ((0 : Float) < Snap.defaultReach) = true := by decide +kernel
  have htouch (p : Geo.Point) :
      (⟨oneEdge, Snap.defaultReach⟩ : Snap.Matcher).touch? p = some ⟨0, 0⟩ := by
    show Option.filter _ (some _) = _
    rw [Option.filter_some, if_pos hreach]
  rw [Snap.Matcher.rides, Snap.Matcher.touches, List.filterMap_cons_some (htouch _),
    List.filterMap_cons_some (htouch _)]
  rfl

/-- An index is built over an older one. The track of two points counts once, and the one that
cannot be used is left out. -/
theorem track_build_over_index :
    (prepare {} (travelled (Index.image #[7])) "index" ⟨1, false⟩
      (some (.tracks "tracks" ⟨oneEdge, Snap.defaultReach⟩ .bestEffort))).disk.read "index" =
        .ok (Index.image #[1]) := by
  have hbegun : (Store.create (travelled (Index.image #[7])) "index" ⟨1, false⟩).1 =
      travelled (List.replicate 8 0) := by
    have hadmitted : Extent.admitted ⟨1, false⟩ = .ok 1 := rfl
    simp only [Store.create, create_travelled, hadmitted]
    rfl
  have hfiles := files_travelled (List.replicate 8 0)
  obtain ⟨hload, hskipped⟩ := load_travelled (List.replicate 8 0)
  have hcountable : Countable (travelled (List.replicate 8 0)) .bestEffort
      ["tracks/a", "tracks/b"] := by
    refine ⟨.inl rfl, fun file hmem track htrack => ?_⟩
    rcases List.mem_pair.mp hmem with rfl | rfl
    · rw [hload] at htrack
      cases htrack
      decide
    · rw [hskipped] at htrack
      cases htrack
  have hlimits : (travelled (Index.image #[7])).Affords (Index.byteSize 1 + Index.headerSize) 3 :=
    ⟨by simp [travelled], by simp [travelled]⟩
  have hbase : (⟨1, false⟩ : Extent).contracted = false := rfl
  have hin : ∀ p hit, oneEdge p = some hit → hit.edge.toNat < 1 := by
    intro p hit h
    cases h
    decide
  rw [← hbegun] at hfiles hload hskipped hcountable
  obtain ⟨records, hsize, hcounts, -, hread, -⟩ := track_build_counts_rides Scheduling.fair_default
    hbase (by decide) hin { failurePolicy := .bestEffort } hlimits (create_travelled _) hfiles
    hcountable
  have hone : records = #[1] := by
    apply Array.ext
    · rw [hsize]
      rfl
    intro i hi hi'
    obtain rfl : i = 0 := by
      rw [hsize] at hi
      exact Nat.lt_one_iff.mp hi
    have hcount := hcounts 0 hi
    simp only [List.map_cons, List.map_nil, ridesIn, hload, hskipped, rides_twoPoints] at hcount
    exact UInt32.toNat_inj.mp hcount
  rw [← hone]
  exact hread

end Build

end Ridership
