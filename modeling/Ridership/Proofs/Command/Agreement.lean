import Mathlib
import Ridership.Command.Run
import Ridership.Proofs.Build.Accounts
import Ridership.Proofs.Build.FailedBuild
import Ridership.Proofs.Snap.Locating
import Ridership.Proofs.Store.Reading

/-!
# The commands agree

An index that was built is queried with the network it was built for, and inspected without it. Both
find the store of the build in the bytes of the file: a query answers for its edges up to the first
one that the network does not have, and an inspection tells the totals that the build reported.
-/

namespace Ridership

theorem Store.riddenCount_eq (s : Store) :
    s.riddenCount = (s.records.toList.map UInt32.toNat).countP (0 < ·) := by
  rw [riddenCount, List.countP_map]
  exact List.countP_congr fun k _ => by simp [UInt32.lt_iff_toNat_lt]

theorem Network.openFile_of_load {d : Disk} {path : String} {n : Network}
    (h : load d path = .ok n) : ∃ id, d.openFile path = .ok id := by
  cases hopen : d.openFile path with
  | ok id => exact ⟨id, rfl⟩
  | error f =>
    simp only [load, Disk.read, hopen, Except.map] at h
    cases f <;> cases h

/-! ## The store of a build -/

namespace Build

open Disk (Made)

variable {sched : Scheduling} {d : Disk} {path other : String} {network : Extent}
  {source : Option Source} {store : Store} {summary : Summary} {id : FileId}

/-- After a build the image of its store is at the path. -/
theorem image_of_prepare
    (h : (prepare sched d path network source).result = .ok (store, summary)) :
    (∃ id, (prepare sched d path network source).disk.openFile path = .ok id ∧
      (prepare sched d path network source).disk.content id = Index.image store.records) ∧
      store.records.size = network.edgeCount ∧ network.edgeCount ≤ UInt32.size := by
  obtain ⟨d₁, created, events, hcreate, hfill, hflush⟩ := built_of_prepare h
  have hfresh := Store.fresh_of_create hcreate
  exact ⟨⟨_, image_of_flush hcreate hfill hflush⟩,
    (recounts_fillFrom hfill).size_eq.trans hfresh.size_eq, hfresh.bounded⟩

theorem accounts_of_prepare (hsched : sched.Fair)
    (hwithin : ∀ s, source = some s → s.Within network.edgeCount)
    (h : (prepare sched d path network source).result = .ok (store, summary)) :
    Accounts store summary.increments
        (given (Store.create d path network).1 network.edgeCount source) ∧
      summary.ridden = store.riddenCount := by
  obtain ⟨d₁, created, events, hcreate, hfill, -⟩ := built_of_prepare h
  rw [hcreate]
  exact fillFrom_accounts hsched (Store.fresh_of_create hcreate) hwithin hfill

/-- A build leaves the content of a file that is not the one at its path. -/
theorem read_of_prepare
    (h : (prepare sched d path network source).result = .ok (store, summary))
    (hother : d.openFile other = .ok id) (hne : d.openFile path ≠ .ok id) :
    (prepare sched d path network source).disk.read other = d.read other := by
  obtain ⟨d₁, created, events, hcreate, hfill, hflush⟩ := built_of_prepare h
  obtain ⟨p, hmade⟩ := made_of_flush hcreate hfill hflush
  obtain ⟨hopen, hcontent⟩ := hmade.confined.other_file hother (hmade.other_ne hother hne)
  simp only [Disk.read, hopen, hother, Except.map, hcontent]

end Build

namespace Command

open Build (Scheduling Source Summary)

variable {sched : Scheduling} {d : Disk} {network output index path : String} {n : Network}
  {source : Option SourceRequest} {source' : Option Source} {r : BuildRequest} {store : Store}
  {summary : Summary}

theorem networkOf_eq_ok_iff : networkOf d network = .ok n ↔ Network.load d network = .ok n := by
  unfold networkOf
  cases Network.load d network <;> simp [Except.mapError]

theorem sourceFor_within {c : Build.Config} (hload : Network.load d network = .ok n)
    (h : sourceFor d n c source = .ok source') :
    ∀ s, source' = some s → s.Within n.edgeCount := by
  intro s hs
  subst hs
  match source with
  | none => cases h
  | some (.tracks folder) =>
    obtain ⟨tracks, hmade, hsome⟩ := map_eq_ok (mapError_eq_ok h)
    obtain ⟨c, -, rfl⟩ := map_eq_ok hmade
    cases hsome
    exact fun p hit hlocate => Network.locate_lt_edgeCount hload hlocate
  | some (.ways file edgeWays) =>
    obtain ⟨m, -, hsome⟩ := map_eq_ok (mapError_eq_ok h)
    cases hsome
    trivial

/-- A build starts with a network that was loaded, and tracks are matched to its edges only. -/
theorem prepared_eq_ok (h : prepared d network source r = .ok (n, source')) :
    Network.load d network = .ok n ∧ ∀ s, source' = some s → s.Within n.edgeCount := by
  obtain ⟨c, -, h⟩ := bind_eq_ok h
  obtain ⟨n₁, hnetwork, h⟩ := bind_eq_ok h
  obtain ⟨source₁, hsource, h⟩ := bind_eq_ok h
  cases h
  have hload := networkOf_eq_ok_iff.mp hnetwork
  exact ⟨hload, sourceFor_within hload hsource⟩

/-- What a build command has done that ends with zero. -/
theorem build_succeeded (h : (build d network output source r sched).code = 0) :
    ∃ n source' store summary, prepared d network source r = .ok (n, source') ∧
      (Build.prepare sched d output n.extent source').result = .ok (store, summary) ∧
      build d network output source r sched =
        { out := [builtLine output summary], err := skippedLines summary
          disk := (Build.prepare sched d output n.extent source').disk } := by
  unfold build at h ⊢
  cases hp : prepared d network source r with
  | error text =>
    rw [hp] at h
    cases h
  | ok prepared =>
    obtain ⟨n, source'⟩ := prepared
    rw [hp] at h
    simp only at h ⊢
    split at h
    · cases h
    · cases h
    · next store summary hresult => exact ⟨n, source', store, summary, rfl, hresult, rfl⟩

/-! ## Queries -/

/-- The line that answers for an edge. -/
def answerLine (s : Store) (e : EdgeId) : String :=
  s!"{e.toNat}\t{min maxCount ((s.records[e.toNat]?.getD 0).toNat + 1)}"

def rangeText (edgeCount : Nat) (e : EdgeId) : String :=
  s!"Edge {e.toNat} is out of range (network has {edgeCount} edges)"

theorem queryLines_cons_of_lt {e : EdgeId} (he : e.toNat < store.records.size)
    (rest : List EdgeId) :
    queryLines store (e :: rest) =
      (answerLine store e :: (queryLines store rest).1, (queryLines store rest).2) := by
  obtain ⟨k, hpopularity, hk⟩ := Store.popularity_of_lt he
  have hline : answerLine store e = s!"{e.toNat}\t{k.toNat}" := by
    rw [answerLine, Array.getElem?_eq_getElem he, Option.getD_some, hk]
  have hin : ¬store.edgeCount ≤ e.toNat := Nat.not_le_of_lt he
  rw [queryLines, if_neg hin]
  simp only [hpopularity, hline]

theorem queryLines_cons_of_ge {e : EdgeId} (he : store.edgeCount ≤ e.toNat) (rest : List EdgeId) :
    queryLines store (e :: rest) = ([], some (.failed (rangeText store.edgeCount e))) := by
  rw [queryLines, if_pos he, rangeText]

/-- The edges that the store has are answered for in order. -/
theorem queryLines_append {before : List EdgeId}
    (h : ∀ e ∈ before, e.toNat < store.records.size) (rest : List EdgeId) :
    queryLines store (before ++ rest) =
      (before.map (answerLine store) ++ (queryLines store rest).1, (queryLines store rest).2) := by
  induction before with
  | nil => rfl
  | cons e before ih =>
    rw [List.cons_append, queryLines_cons_of_lt (h e List.mem_cons_self),
      ih fun e' he' => h e' (List.mem_cons_of_mem _ he')]
    rfl

/-- A query for edges that the store has prints a line for each of them. -/
theorem query_of_lt (hnetwork : Network.load d network = .ok n)
    (hload : Store.load d index n.extent = .ok (some store)) {edges : List EdgeId}
    (h : ∀ e ∈ edges, e.toNat < store.records.size) :
    query d index network edges = { out := edges.map (answerLine store), disk := d } := by
  have hlines : queryLines store edges = (edges.map (answerLine store), none) := by
    have happend := queryLines_append h []
    rw [List.append_nil] at happend
    rw [happend, queryLines, List.append_nil]
  simp only [query, networkOf_eq_ok_iff.mpr hnetwork, hload, hlines]

/-- A query fails at the first edge that the store does not have. -/
theorem query_of_ge (hnetwork : Network.load d network = .ok n)
    (hload : Store.load d index n.extent = .ok (some store)) {before : List EdgeId}
    (h : ∀ e ∈ before, e.toNat < store.records.size) {e : EdgeId}
    (he : store.edgeCount ≤ e.toNat) (rest : List EdgeId) :
    query d index network (before ++ e :: rest) =
      .failed d (before.map (answerLine store)) (rangeText store.edgeCount e) := by
  have hlines : queryLines store (before ++ e :: rest) =
      (before.map (answerLine store), some (.failed (rangeText store.edgeCount e))) := by
    rw [queryLines_append h, queryLines_cons_of_ge he, List.append_nil]
  simp only [query, networkOf_eq_ok_iff.mpr hnetwork, hload, hlines]

/-- Edges that are not all in the network have a first one that is not. -/
theorem exists_first_ge {edges : List EdgeId} {edgeCount : Nat}
    (h : ¬∀ e ∈ edges, e.toNat < edgeCount) :
    ∃ before e rest, edges = before ++ e :: rest ∧ (∀ e' ∈ before, e'.toNat < edgeCount) ∧
      edgeCount ≤ e.toNat := by
  obtain ⟨e, hfirst⟩ : ∃ e, edges.find? (fun e => decide (edgeCount ≤ e.toNat)) = some e := by
    refine Option.isSome_iff_exists.mp (List.find?_isSome.mpr ?_)
    simpa using h
  obtain ⟨hge, before, rest, hsplit, hbefore⟩ := List.find?_eq_some_iff_append.mp hfirst
  exact ⟨before, e, rest, hsplit, by simpa using hbefore, of_decide_eq_true hge⟩

/-! ## Inspections -/

/-- The lines about an index with these counters. -/
def inspectLines (path : String) (counters : List Nat) : List String :=
  [s!"File:     {path}", "Magic:    0x00004ad1 (current)", s!"Records:  {counters.length}",
    s!"Edges with evidence: {counters.countP (0 < ·)}",
    s!"Max raw count:       {counters.max?.getD 0}", s!"Total increments:    {counters.sum}"]

theorem headerLines_current (path : String) (recordCount : Nat) :
    headerLines path ⟨Index.magic, recordCount⟩ =
      [s!"File:     {path}", "Magic:    0x00004ad1 (current)", s!"Records:  {recordCount}"] := by
  have hcurrent : Index.Header.isCurrent ⟨Index.magic, recordCount⟩ = true := rfl
  have hage (age : String) (h : age = "current") :
      s!"Magic:    {hexWord Index.magic} ({age})" = "Magic:    0x00004ad1 (current)" := by
    subst h
    decide
  simp only [headerLines, hcurrent, if_true, hage]

theorem recordLines_eq (s : Store) :
    recordLines s =
      let counters := s.records.toList.map UInt32.toNat
      [s!"Edges with evidence: {counters.countP (0 < ·)}",
        s!"Max raw count:       {counters.max?.getD 0}",
        s!"Total increments:    {counters.sum}"] := by
  simp only [recordLines, Store.riddenCount_eq, List.foldl_max, Nat.zero_max, List.sum_eq_foldl]

/-- An inspection of an image tells its counters. -/
theorem inspect_of_image {id : FileId} {records : Array UInt32}
    (hopen : d.openFile index = .ok id) (hcontent : d.content id = Index.image records)
    (hmax : records.size ≤ UInt32.size) :
    inspect d index =
      { out := inspectLines index (records.toList.map UInt32.toNat), disk := d } := by
  obtain ⟨⟨magic, recordCount⟩, hread, hcurrent, rfl⟩ :=
    Index.read_current_iff.mpr ⟨records, hcontent, rfl⟩
  obtain rfl : magic = Index.magic := eq_of_beq hcurrent
  have hheader : Store.header d index = .ok ⟨Index.magic, records.size⟩ := by
    rw [Store.header_eq hopen, hread]
  have hload : Store.load d index ⟨records.size, false⟩ =
      .ok (some ⟨index, id, records, true⟩) :=
    Store.load_eq_some_iff.mpr ⟨rfl, hmax, id, records, hopen, hcontent, rfl, rfl⟩
  have hlines : headerLines index ⟨Index.magic, records.size⟩ ++
      recordLines ⟨index, id, records, true⟩ =
        inspectLines index (records.toList.map UInt32.toNat) := by
    rw [headerLines_current, recordLines_eq, inspectLines, List.length_map, Array.length_toList]
    rfl
  simp only [inspect, hheader, hcurrent, if_true, hload, hlines]

/-! ## One after another -/

/-- A build leaves its network as it was. -/
theorem load_after_build (hload : Network.load d network = .ok n)
    (hapart : ∀ id, d.openFile network = .ok id → d.openFile output ≠ .ok id)
    (hresult : (Build.prepare sched d output n.extent source').result = .ok (store, summary)) :
    Network.load (Build.prepare sched d output n.extent source').disk network = .ok n := by
  obtain ⟨id, hopen⟩ := Network.openFile_of_load hload
  have hread := Build.read_of_prepare hresult hopen (hapart id hopen)
  simpa only [Network.load, hread] using hload

/-- A build that ends with zero, of an index that is not its network, is followed by a query of the
index with the same network and by an inspection. The query answers from the counters that the build
has made, up to the first edge that the network does not have; there it fails, and it never misuses
the store. The inspection has as many edges with evidence as the build printed. What it tells to be
the total is at most the increments of the build, and is less exactly if some edge was given more
than a counter holds. -/
theorem commands_agree (hsched : sched.Fair)
    (hapart : ∀ id, d.openFile network = .ok id → d.openFile output ≠ .ok id)
    (hbuilt : (build d network output source r sched).code = 0) :
    let built := build d network output source r sched
    ∃ (n : Network) (source' : Option Source) (store : Store) (summary : Summary),
      prepared d network source r = .ok (n, source') ∧
      (Build.prepare sched d output n.extent source').result = .ok (store, summary) ∧
      let given := Build.given (Store.create d output n.extent).1 n.edgeCount source'
      let counters := store.records.toList.map UInt32.toNat
      built.out =
        [s!"Wrote {output} ({summary.merged} files merged, {summary.failures.length} failed, " ++
          s!"{counters.countP (0 < ·)} edges with evidence)"] ∧
      counters.length = n.edgeCount ∧ store.Holds given ∧
      (∀ edges : List EdgeId, (∀ e ∈ edges, e.toNat < n.edgeCount) →
        query built.disk output network edges =
          { out := edges.map (answerLine store), disk := built.disk }) ∧
      (∀ (before : List EdgeId) (e : EdgeId) (rest : List EdgeId),
        (∀ e' ∈ before, e'.toNat < n.edgeCount) → n.edgeCount ≤ e.toNat →
          query built.disk output network (before ++ e :: rest) =
            .failed built.disk (before.map (answerLine store)) (rangeText n.edgeCount e)) ∧
      (∀ edges : List EdgeId, (query built.disk output network edges).code =
        if ∀ e ∈ edges, e.toNat < n.edgeCount then 0 else 1) ∧
      inspect built.disk output = { out := inspectLines output counters, disk := built.disk } ∧
      summary.ridden = counters.countP (0 < ·) ∧
      counters.sum < UInt64.size ∧ counters.sum ≤ summary.increments ∧
      (counters.sum = summary.increments ↔
        ∀ e : EdgeId, e.toNat < n.edgeCount → given e ≤ maxCount) := by
  intro built
  obtain ⟨n, source', store, summary, hprepared, hresult, hbuild⟩ := build_succeeded hbuilt
  obtain ⟨hload, hwithin⟩ := prepared_eq_ok hprepared
  obtain ⟨⟨id, hopen, hcontent⟩, hsize, hmax⟩ := Build.image_of_prepare hresult
  obtain ⟨haccounts, hridden⟩ := Build.accounts_of_prepare hsched hwithin hresult
  have hnetwork := load_after_build hload hapart hresult
  have hstore : Store.load (Build.prepare sched d output n.extent source').disk output n.extent =
      .ok (some ⟨output, id, store.records, true⟩) :=
    Store.load_eq_some_iff.mpr ⟨rfl, hmax, id, store.records, hopen, hcontent, hsize, rfl⟩
  have hdisk : built.disk = (Build.prepare sched d output n.extent source').disk := by
    show (build d network output source r sched).disk = _
    rw [hbuild]
  have hcount : store.records.size = n.edgeCount := hsize
  have hrecords : store.records.size ≤ UInt32.size := hsize ▸ hmax
  have hridden : summary.ridden = (store.records.toList.map UInt32.toNat).countP (0 < ·) := by
    rw [hridden, Store.riddenCount_eq]
  have hin (edges : List EdgeId) (hedges : ∀ e ∈ edges, e.toNat < n.edgeCount) :
      query built.disk output network edges =
        { out := edges.map (answerLine store), disk := built.disk } := by
    rw [hdisk]
    rw [← hcount] at hedges
    exact query_of_lt hnetwork hstore hedges
  have hout (before : List EdgeId) (e : EdgeId) (rest : List EdgeId)
      (hbefore : ∀ e' ∈ before, e'.toNat < n.edgeCount) (he : n.edgeCount ≤ e.toNat) :
      query built.disk output network (before ++ e :: rest) =
        .failed built.disk (before.map (answerLine store)) (rangeText n.edgeCount e) := by
    rw [hdisk, ← hcount]
    rw [← hcount] at hbefore he
    exact query_of_ge hnetwork hstore hbefore he rest
  refine ⟨n, source', store, summary, hprepared, hresult, ?_, ?_, haccounts.holds, hin, hout,
    fun edges => ?_, ?_, hridden, ?_, ?_, ?_⟩
  · show (build d network output source r sched).out = _
    rw [hbuild, builtLine, hridden]
  · rw [List.length_map, Array.length_toList, hcount]
  · by_cases hedges : ∀ e ∈ edges, e.toNat < n.edgeCount
    · rw [hin edges hedges, if_pos hedges]
    · obtain ⟨before, e, rest, rfl, hbefore, he⟩ := exists_first_ge hedges
      rw [hout before e rest hbefore he, if_neg hedges]
      rfl
  · rw [hdisk]
    exact inspect_of_image hopen hcontent hrecords
  · exact Build.Source.sum_records_lt (by rwa [Array.length_toList])
  · exact haccounts.sum_le hrecords
  · have hexact := haccounts.sum_eq_iff hrecords
    rwa [hcount] at hexact

/-- A disk with an index, a network of three edges, a table with a popularity for way 5, and the
ways of the edges, which have edge 1 on way 5. -/
def surveyed (index : Bytes) : Disk where
  nodes := [(["index"], .file 0), (["network"], .file 1), (["table"], .file 2), (["ways"], .file 3)]
  contents := [index, "[3, []]".toUTF8.toList, Build.oneWay, "\x7b\"1\": 5\x7d".toUTF8.toList]
  files_exist := by simp

theorem openFile_surveyed (index : Bytes) :
    (surveyed index).openFile "index" = .ok 0 ∧ (surveyed index).openFile "network" = .ok 1 ∧
      (surveyed index).openFile "table" = .ok 2 ∧ (surveyed index).openFile "ways" = .ok 3 := by
  refine ⟨?_, ?_, ?_, ?_⟩ <;>
    exact Disk.openFile_of_name (by decide) (by decide) ⟨by decide, by decide, by decide⟩ rfl

theorem network_surveyed (index : Bytes) :
    Network.load (surveyed index) "network" = .ok ⟨some 3, []⟩ := by
  have hread : (surveyed index).read "network" = .ok "[3, []]".toUTF8.toList := by
    rw [Disk.read, (openFile_surveyed index).2.1]
    rfl
  have htree : Json.Tree.ofBytes "[3, []]".toUTF8.toList =
      .ok (.array [.number ⟨false, [3], [], none⟩, .array []]) := by cbv
  simp only [Network.load, hread, htree]
  rfl

theorem table_surveyed (index : Bytes) :
    Way.Table.load (surveyed index) "table" = .ok ((∅ : Way.Table).insert 5 7) := by
  refine Build.load_oneWay ?_
  rw [Disk.read, (openFile_surveyed index).2.2.1]
  rfl

theorem ways_surveyed (index : Bytes) :
    Way.EdgeMap.load (surveyed index) "ways" = .ok (.ofPairs [(1, 5)]) := by
  have hread : (surveyed index).read "ways" = .ok "\x7b\"1\": 5\x7d".toUTF8.toList := by
    rw [Disk.read, (openFile_surveyed index).2.2.2]
    rfl
  have htree : Json.Tree.ofBytes "\x7b\"1\": 5\x7d".toUTF8.toList =
      .ok (.object [("1".toUTF8.toList, .number ⟨false, [5], [], none⟩)]) := by cbv
  have hpairs : [("1".toUTF8.toList, Json.Tree.number ⟨false, [5], [], none⟩)].mapM
      Way.EdgeMap.pairOfField = .ok [(1, 5)] := by cbv
  simp only [Way.EdgeMap.load, hread, htree, Way.EdgeMap.ofTree, hpairs, Except.bind, Except.map,
    Except.mapError]

/-- The source that joins the table to the edges. -/
def waysRequest : SourceRequest :=
  .ways "table" "ways"

theorem prepared_surveyed (index : Bytes) :
    prepared (surveyed index) "network" (some waysRequest) {} =
      .ok (⟨some 3, []⟩, some (.ways "table" (.ofPairs [(1, 5)]))) := by
  have hconfig : configOf (surveyed index) {} = .ok {} := rfl
  simp only [prepared, hconfig, networkOf, network_surveyed, waysRequest, sourceFor, ways_surveyed,
    Except.mapError, Except.map, bind, Except.bind]
  rfl

theorem create_surveyed (index : Bytes) :
    Store.create (surveyed index) "index" (Network.extent ⟨some 3, []⟩) =
      (surveyed (List.replicate 16 0), .ok ⟨"index", 0, Array.replicate 3 0, false⟩) := by
  obtain ⟨p, hlocate⟩ := Disk.openFile_eq_ok_iff.mp (openFile_surveyed index).1
  have hopened : (surveyed index).create "index" = .ok (surveyed [], 0) := by
    rw [Disk.create, hlocate]
    rfl
  have hadmitted : (Network.extent ⟨some 3, []⟩).admitted = .ok 3 := rfl
  simp only [Store.create, hadmitted, hopened]
  rfl

theorem result_surveyed (index : Bytes) :
    ∃ filled summary, (Build.prepare {} (surveyed index) "index" (Network.extent ⟨some 3, []⟩)
        (some (.ways "table" (.ofPairs [(1, 5)])))).result = .ok (filled, summary) ∧
      summary.merged = 1 ∧ summary.failures = [] :=
  ⟨_, _, Build.prepare_ways (create_surveyed index) (table_surveyed _) ⟨nofun, nofun⟩, rfl, rfl⟩

theorem build_surveyed (index : Bytes) :
    (build (surveyed index) "network" "index" (some waysRequest) {}).code = 0 := by
  obtain ⟨filled, summary, hresult, -⟩ := result_surveyed index
  simp only [build, prepared_surveyed, hresult]

/-- After a build over an empty file, a query finds the popularity of edge 1 and fails for the next
edge, which the network does not have. -/
theorem agreement_of_one_way :
    let built := build (surveyed []) "network" "index" (some waysRequest) {}
    built.out = ["Wrote index (1 files merged, 0 failed, 1 edges with evidence)"] ∧
      query built.disk "index" "network" [1, 3, 0] =
        .failed built.disk ["1\t8"] "Edge 3 is out of range (network has 3 edges)" ∧
      inspect built.disk "index" =
        { out := inspectLines "index" [0, 7, 0], disk := built.disk } := by
  intro built
  have hapart : ∀ id, (surveyed []).openFile "network" = .ok id →
      (surveyed []).openFile "index" ≠ .ok id := by
    obtain ⟨hindex, hnetwork, -⟩ := openFile_surveyed []
    intro id hid
    rw [hnetwork] at hid
    cases hid
    rw [hindex]
    nofun
  obtain ⟨n, source', store, summary, hprepared, hresult, hout, hlength, hholds, -, hquery, -,
    hinspect, -⟩ := commands_agree Scheduling.fair_default hapart (build_surveyed [])
  rw [prepared_surveyed] at hprepared
  cases hprepared
  obtain ⟨_, _, hprepare, hmerged, hfailures⟩ := result_surveyed []
  rw [hprepare] at hresult
  cases hresult
  have hsize : store.records.size = 3 := by
    rw [List.length_map, Array.length_toList] at hlength
    exact hlength
  have hcounter (e : EdgeId) (he : e.toNat < store.records.size) :
      store.records[e.toNat].toNat = min maxCount
        (Source.popularityOf (.ofPairs [(1, 5)]) ((∅ : Way.Table).insert 5 7) e).toNat := by
    have hlt : e.toNat < 3 := hsize ▸ he
    rw [hholds e he, create_surveyed]
    simp only [Build.given, Source.given, table_surveyed]
    exact congrArg _ (if_pos hlt)
  have hrecords : store.records = #[0, 7, 0] := by
    refine Array.ext hsize fun i hi _ => UInt32.toNat_inj.mp ?_
    have hlt : i < 3 := hsize ▸ hi
    interval_cases i
    · exact hcounter 0 hi
    · exact hcounter 1 hi
    · exact hcounter 2 hi
  have hline : answerLine store 1 = "1\t8" := by
    rw [answerLine, hrecords]
    decide
  have hbefore : ∀ e ∈ [(1 : EdgeId)], e.toNat < 3 := by
    intro e he
    rw [List.mem_singleton.mp he]
    decide
  have hfailed := hquery [1] 3 [0] hbefore (by decide)
  rw [List.map_singleton, hline] at hfailed
  rw [hrecords] at hinspect
  rw [hrecords, hmerged, hfailures] at hout
  exact ⟨hout, hfailed, hinspect⟩

end Command

end Ridership
