import Mathlib
import Ridership.Proofs.Build.Accounts
import Ridership.Proofs.Build.FailedBuild
import Ridership.Proofs.Build.Halting
import Ridership.Proofs.Build.Joining
import Ridership.Proofs.Build.TrackBuild
import Ridership.Proofs.Snap.Locating

/-!
# Builds stay within bounds

No function of a build checks all numbers of edges, but together they keep to those of the network:
the document declares enough edges, only edges of the network are located, and a tally has only
edges that were located. On the other side, a locator is asked only for positions that are on the
globe.
-/

namespace Ridership

/-! ## Positions -/

/-- The coordinates of a position on the globe. -/
structure Geo.Point.OnGlobe (p : Geo.Point) : Prop where
  lat_finite : p.lat.isFinite = true
  lon_finite : p.lon.isFinite = true
  lat_range : -90 ≤ p.lat ∧ p.lat ≤ 90
  lon_range : -180 ≤ p.lon ∧ p.lon ≤ 180

theorem Geo.Point.onGlobe_of_isValid {p : Geo.Point} (h : p.isValid = true) : p.OnGlobe := by
  simp only [isValid, Bool.and_eq_true, decide_eq_true_eq] at h
  obtain ⟨⟨⟨⟨⟨hlat, hlon⟩, hsouth⟩, hnorth⟩, hwest⟩, heast⟩ := h
  exact ⟨hlat, hlon, ⟨hsouth, hnorth⟩, ⟨hwest, heast⟩⟩

namespace Track

variable {d : Disk} {file : String} {track : List Geo.Point} {p : Geo.Point}

theorem onGlobe_of_points {bytes : Bytes} (h : points bytes = .ok track) (hp : p ∈ track) :
    p.OnGlobe := by
  obtain ⟨v, -, hitems⟩ := bind_eq_ok h
  split at hitems
  · cases hitems
  · cases hitems
    exact Geo.Point.onGlobe_of_isValid (List.mem_filter.mp hp).2

/-- A track that can be used has positions on the globe only. -/
theorem onGlobe_of_load (h : load d file = .ok track) (hp : p ∈ track) : p.OnGlobe := by
  obtain ⟨bytes, -, hparse⟩ := bind_eq_ok h
  exact onGlobe_of_points (mapError_eq_ok hparse) hp

end Track

namespace Build

variable {sched : Scheduling} {d : Disk} {path folder : String} {network : Extent}
  {source : Option Source} {store : Store} {events : List Event} {misuse : Misuse}

namespace Source

variable {locate locate' : Snap.Locator} {policy : FailurePolicy}

/-- A locator is asked for positions on the globe only: what it would answer for others makes no
difference to the result of a track. -/
theorem resultOf_congr (reach : Float) (h : ∀ p : Geo.Point, p.OnGlobe → locate' p = locate p)
    (file : String) :
    resultOf sched d ⟨locate', reach⟩ file = resultOf sched d ⟨locate, reach⟩ file := by
  unfold resultOf
  cases hload : Track.load d file with
  | error f => rfl
  | ok track =>
    have htouches : Snap.Matcher.touches ⟨locate', reach⟩ track =
        Snap.Matcher.touches ⟨locate, reach⟩ track := by
      refine List.filterMap_congr fun p hp => ?_
      simp only [Snap.Matcher.touch?, h p (Track.onGlobe_of_load hload hp)]
    have htally : Snap.Matcher.tally ⟨locate', reach⟩ track =
        Snap.Matcher.tally ⟨locate, reach⟩ track := by
      rw [Snap.Matcher.tally, htouches, Snap.Matcher.tally]
    simp only [Except.map, htally]

theorem fillFromTracks_congr (folder : String) (reach : Float) (policy : FailurePolicy)
    (store : Store) (h : ∀ p : Geo.Point, p.OnGlobe → locate' p = locate p) :
    fillFromTracks sched d folder ⟨locate', reach⟩ policy store =
      fillFromTracks sched d folder ⟨locate, reach⟩ policy store := by
  have hresults : resultOf sched d ⟨locate', reach⟩ = resultOf sched d ⟨locate, reach⟩ :=
    funext fun file => resultOf_congr reach h file
  simp only [fillFromTracks, hresults]

/-! ## Numbers of edges -/

theorem fillFromTracks_not_misused {reach : Float}
    (hvisit : ∀ path tally, (sched.visit path tally).Perm tally.toList)
    (hw : store.readOnly = false)
    (hin : ∀ p hit, locate p = some hit → hit.edge.toNat < store.records.size) :
    fillFromTracks sched d folder ⟨locate, reach⟩ policy store ≠
      (events, .error (.misused misuse)) := by
  intro hfill
  unfold fillFromTracks at hfill
  split at hfill
  · cases hfill
  · next files _ =>
    split at hfill
    · cases hfill
    · exact mergeAll_not_misused hw (inRange_results hvisit hin _) hfill

theorem fillFromWays_not_misused {file : String} {edges : Way.EdgeMap} {n : Nat}
    (hfresh : store.Fresh n) :
    fillFromWays d file edges store ≠ (events, .error (.misused misuse)) := by
  intro hfill
  unfold fillFromWays at hfill
  split at hfill
  · cases hfill
  · next table _ =>
    rw [joinWays_eq hfresh] at hfill
    cases hfill

end Source

/-- Only filling the store can misuse it. -/
theorem fill_of_misused (h : (prepare sched d path network source).result =
    .error (.misused misuse)) :
    ∃ d₁ store events, Store.create d path network = (d₁, .ok store) ∧
      fillFrom sched d₁ store source = (events, .error (.misused misuse)) := by
  have hending := prepare_ending sched d path network source
  generalize prepare sched d path network source = outcome at h hending
  cases hending with
  | uncreated _ | unfilled _ _ | unflushed _ _ _ | built _ _ _ => cases h
  | misused create fill =>
    cases h
    exact ⟨_, _, _, create, fill⟩

/-- Whatever the document of a network, the tracks and ways, the distance and the order in which
results arrive, the edges that a build counts for are edges of the store, and the positions that it
locates are on the globe. -/
theorem builds_stay_in_bounds {disk : Disk} {document : String} {n : Network}
    (hload : Network.load disk document = .ok n)
    (hvisit : ∀ path tally, (sched.visit path tally).Perm tally.toList) (d : Disk)
    (path : String) :
    (∀ folder reach policy misuse,
      (prepare sched d path n.extent (some (.tracks folder
        ⟨(Snap.Index.ofEdges n.edges).locate, reach⟩ policy))).result ≠
          .error (.misused misuse)) ∧
    (∀ file edges misuse,
      (prepare sched d path n.extent (some (.ways file edges))).result ≠
        .error (.misused misuse)) ∧
    (∀ file track, Track.load d file = .ok track → ∀ p ∈ track, p.OnGlobe) ∧
    (∀ (locate : Snap.Locator) folder reach policy,
      (∀ p : Geo.Point, p.OnGlobe → locate p = (Snap.Index.ofEdges n.edges).locate p) →
      prepare sched d path n.extent (some (.tracks folder ⟨locate, reach⟩ policy)) =
        prepare sched d path n.extent (some (.tracks folder
          ⟨(Snap.Index.ofEdges n.edges).locate, reach⟩ policy))) := by
  refine ⟨fun folder reach policy misuse hmisused => ?_, fun file edges misuse hmisused => ?_,
    fun file track hload p hp => Track.onGlobe_of_load hload hp,
    fun locate folder reach policy hsame => ?_⟩
  · obtain ⟨d₁, store, events, hcreate, hfill⟩ := fill_of_misused hmisused
    have hfresh := Store.fresh_of_create hcreate
    refine Source.fillFromTracks_not_misused hvisit hfresh.writable (fun p hit hlocate => ?_) hfill
    rw [hfresh.size_eq]
    exact Network.locate_lt_edgeCount hload hlocate
  · obtain ⟨d₁, store, events, hcreate, hfill⟩ := fill_of_misused hmisused
    exact Source.fillFromWays_not_misused (Store.fresh_of_create hcreate) hfill
  · have hfill : ∀ d₁ store,
      fillFrom sched d₁ store (some (.tracks folder ⟨locate, reach⟩ policy)) =
        fillFrom sched d₁ store (some (.tracks folder
          ⟨(Snap.Index.ofEdges n.edges).locate, reach⟩ policy)) :=
      fun d₁ store => Source.fillFromTracks_congr folder reach policy store hsame
    simp only [prepare, hfill]

/-- A document of a single edge, which has number 2 and one point. -/
def loneEdge : Bytes :=
  "[null, [[2, [[1, 2]]]]]".toUTF8.toList

theorem ofBytes_loneEdge : Json.Tree.ofBytes loneEdge =
    .ok (.array [.null, .array [.array [.number ⟨false, [2], [], none⟩,
      .array [.array [.number ⟨false, [1], [], none⟩, .number ⟨false, [2], [], none⟩]]]]]) := by
  cbv

theorem load_loneEdge :
    Network.load (Index.soleFile loneEdge) "index" = .ok ⟨none, [⟨2, [⟨1, 2⟩]⟩]⟩ := by
  have hopen : (Index.soleFile loneEdge).openFile "index" = .ok 0 :=
    Disk.openFile_eq_ok_iff.mpr ⟨_, Index.locate_soleFile loneEdge⟩
  have hcontent : (Index.soleFile loneEdge).content 0 = loneEdge := rfl
  simp only [Network.load, Disk.read, hopen, Except.map, hcontent, ofBytes_loneEdge]
  rfl

/-- A disk with an index, a folder with a track of two points on the lone edge, and a table that has
a way. -/
def mapped (index : Bytes) : Disk where
  nodes := [(["index"], .file 0), (["tracks"], .folder), (["tracks", "a"], .file 1),
    (["ways"], .file 2)]
  contents := [index, twoPoints, oneWay]
  files_exist := by simp

theorem track_mapped (index : Bytes) :
    Track.load (mapped index) "tracks/a" = .ok [⟨1, 2⟩, ⟨1, 2⟩] := by
  have hlocate : (mapped index).locate "tracks/a" = .ok (.file ["tracks", "a"] 1) :=
    Disk.locate_of_names (by decide) (by decide) (by decide) (by decide)
      ⟨by decide, by decide, by decide⟩ ⟨by decide, by decide, by decide⟩ rfl rfl
  refine load_twoPoints ?_
  rw [Disk.read, Disk.openFile, hlocate]
  rfl

theorem ways_mapped (index : Bytes) :
    Way.Table.load (mapped index) "ways" = .ok ((∅ : Way.Table).insert 5 7) := by
  have hopen : (mapped index).openFile "ways" = .ok 2 :=
    Disk.openFile_of_name (by decide) (by decide) ⟨by decide, by decide, by decide⟩ rfl
  refine load_oneWay ?_
  rw [Disk.read, hopen]
  rfl

theorem create_mapped (index : Bytes) :
    Store.create (mapped index) "index" ⟨3, false⟩ =
      (mapped (List.replicate 16 0), .ok ⟨"index", 0, Array.replicate 3 0, false⟩) := by
  have hlocate : (mapped index).locate "index" = .ok (.file ["index"] 0) :=
    Disk.locate_of_name (by decide) (by decide) ⟨by decide, by decide, by decide⟩ rfl
  have hopened : (mapped index).create "index" = .ok (mapped [], 0) := by
    rw [Disk.create, hlocate]
    rfl
  have hadmitted : Extent.admitted ⟨3, false⟩ = .ok 3 := rfl
  simp only [Store.create, hadmitted, hopened]
  rfl

/-- The network of the lone edge has room for three edges. The points of the track are on the globe,
and neither they nor a way of an edge beyond lead beyond the three edges. The way of the lone edge
counts. -/
theorem bounds_of_lone_edge :
    let n : Network := ⟨none, [⟨2, [⟨1, 2⟩]⟩]⟩
    let ways := Source.ways "ways" (Way.EdgeMap.ofPairs [(2, 5), (3, 5)])
    n.edgeCount = 3 ∧ (⟨1, 2⟩ : Geo.Point).OnGlobe ∧
      (∀ misuse, (prepare {} (mapped []) "index" n.extent (some (.tracks "tracks"
        ⟨(Snap.Index.ofEdges n.edges).locate, Snap.defaultReach⟩ .bestEffort))).result ≠
          .error (.misused misuse)) ∧
      (∀ misuse, (prepare {} (mapped []) "index" n.extent (some ways)).result ≠
        .error (.misused misuse)) ∧
      ∃ store summary, (prepare {} (mapped []) "index" n.extent (some ways)).result =
        .ok (store, summary) ∧ store.records = #[0, 0, 7] := by
  intro n ways
  obtain ⟨htracks, hways, hglobe, -⟩ := builds_stay_in_bounds load_loneEdge
    Scheduling.fair_default.visit (mapped []) "index"
  refine ⟨rfl, hglobe _ _ (track_mapped []) _ List.mem_cons_self, htracks _ _ _, hways _ _, _, _,
    prepare_ways (create_mapped []) (ways_mapped _) ⟨nofun, nofun⟩, rfl⟩

end Build

end Ridership
