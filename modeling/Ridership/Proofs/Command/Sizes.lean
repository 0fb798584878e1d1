import Mathlib.Data.Set.Lattice
import Ridership.Proofs.Command.Agreement
import Ridership.Proofs.Word.Checked

/-!
# Sizes, on 64 bits

The library counts edges, bytes and increments by natural numbers. Here the same calculations are
made with checked 64-bit arithmetic, and each of them yields the number of the library: the sizes of
an index of a network that an index can be made for, which may use every edge number; the sum of its
counters; the number of edges that a document uses; and the number of records in a file. The counts
of files and failures in a summary are not considered.
-/

namespace Ridership

open Word (plus? times? minus? sum?)

namespace Index

variable {n : Nat}

/-! ## Files -/

def byteSize? (count : UInt64) : Option UInt64 := do
  let bytes ← times? count (UInt64.ofNat recordWidth)
  plus? (UInt64.ofNat headerSize) bytes

/-- The size of an index of as many edges as there are edge numbers is a 64-bit number. -/
theorem byteSize?_of_le (h : n ≤ UInt32.size) :
    ∃ size, byteSize? (UInt64.ofNat n) = some size ∧ size.toNat = byteSize n := by
  have hn : (UInt64.ofNat n).toNat = n :=
    UInt64.toNat_ofNat_of_lt (Nat.lt_of_le_of_lt h (by decide))
  have hmost : n * recordWidth ≤ UInt32.size * recordWidth := Nat.mul_le_mul_right _ h
  obtain ⟨bytes, htimes, hbytes⟩ := Word.times?_of_lt (a := UInt64.ofNat n)
    (b := UInt64.ofNat recordWidth) (by
      rw [hn]
      exact Nat.lt_of_le_of_lt hmost (by decide))
  rw [hn] at hbytes
  obtain ⟨size, hplus, hsize⟩ := Word.plus?_of_lt (a := UInt64.ofNat headerSize) (b := bytes) (by
    rw [hbytes]
    exact Nat.lt_of_le_of_lt (Nat.add_le_add_left hmost headerSize) (by decide))
  refine ⟨size, ?_, ?_⟩
  · rw [byteSize?, htimes, Option.bind_eq_bind, Option.bind_some, hplus]
  · rw [hsize, hbytes]
    rfl

/-- The places of the bytes of a record. -/
def recordPlaces (e : Nat) : Set Nat :=
  Set.Ico (4 + 4 * e) (8 + 4 * e)

theorem disjoint_recordPlaces {e f : Nat} (h : e ≠ f) :
    Disjoint (recordPlaces e) (recordPlaces f) := by
  refine Set.disjoint_left.mpr fun k he hf => h ?_
  obtain ⟨hle, hlt⟩ := he
  obtain ⟨hle', hlt'⟩ := hf
  omega

/-- The records fill the file behind the header. -/
theorem iUnion_recordPlaces (n : Nat) :
    ⋃ e < n, recordPlaces e = Set.Ico headerSize (byteSize n) := by
  ext k
  simp only [Set.mem_iUnion, recordPlaces, Set.mem_Ico, byteSize, headerSize, recordWidth,
    exists_prop]
  constructor
  · rintro ⟨e, he, hle, hlt⟩
    omega
  · rintro ⟨hle, hlt⟩
    exact ⟨(k - 4) / 4, by omega, by omega, by omega⟩

/-- At the places of a record are the bytes of its word. -/
theorem record_at_places (records : Array UInt32) {e : Nat} (h : e < records.size) :
    ((image records).drop (4 + 4 * e)).take 4 = word records[e] := by
  have hplace : byteSize e = 4 + 4 * e := by
    simp only [byteSize, headerSize, recordWidth]
    omega
  rw [← hplace]
  exact record_of_image records h

def Header.read? (start : Bytes) (length : UInt64) : Option (Except SizeMismatch Header) :=
  match start with
  | a :: b :: c :: d :: _ =>
    if length < UInt64.ofNat headerSize then some (.error ⟨headerSize, length.toNat⟩)
    else do
      let body ← minus? length (UInt64.ofNat headerSize)
      let count := body / UInt64.ofNat recordWidth
      if body % UInt64.ofNat recordWidth = 0 then some (.ok ⟨ofWord a b c d, count.toNat⟩)
      else do
        let next ← plus? count 1
        some (.error ⟨next.toNat, count.toNat⟩)
  | _ => some (.error ⟨headerSize, length.toNat⟩)

/-- The header is read from the length as a 64-bit number, whatever the length is. -/
theorem Header.read?_eq (start : Bytes) (length : UInt64) :
    Header.read? start length = some (Header.read start length.toNat) := by
  have hshort : length < UInt64.ofNat headerSize ↔ length.toNat < headerSize :=
    UInt64.lt_iff_toNat_lt
  match start with
  | [] | [_] | [_, _] | [_, _, _] => rfl
  | a :: b :: c :: d :: rest =>
    simp only [Header.read?, Header.read, hshort]
    split
    · rfl
    · next hlong =>
      obtain ⟨body, hminus, hbody⟩ := Word.minus?_of_le (b := UInt64.ofNat headerSize)
        (Nat.le_of_not_lt hlong)
      have hcount : (body / UInt64.ofNat recordWidth).toNat =
          (length.toNat - headerSize) / recordWidth := by
        rw [UInt64.toNat_div, hbody]
        rfl
      have hwhole : body % UInt64.ofNat recordWidth = 0 ↔
          (length.toNat - headerSize) % recordWidth = 0 := by
        rw [← UInt64.toNat_inj, UInt64.toNat_mod, hbody]
        rfl
      obtain ⟨next, hplus, hnext⟩ := Word.plus?_of_lt (a := body / UInt64.ofNat recordWidth)
        (b := 1) (by
          have hlt := length.toNat_lt_size
          have hquotient := Nat.div_le_self (length.toNat - headerSize) recordWidth
          have hheader : 0 < headerSize := by decide
          rw [hcount, UInt64.toNat_one]
          omega)
      rw [hcount, UInt64.toNat_one] at hnext
      simp only [hminus, hplus, Option.bind_eq_bind, Option.bind_some, hcount, hwhole, hnext]
      split <;> rfl

end Index

/-! ## Documents -/

namespace Network

variable {n : Network} {d : Disk} {path : String} {bytes : Bytes}

/-- The number of edges that a network uses, on 64 bits: the largest of the numbers one beyond those
of its edges. -/
def usedCount? (n : Network) : Option UInt64 :=
  n.edges.foldlM (fun used e => (plus? e.id.toUInt64 1).map (max used)) 0

def checked? (path : String) (n : Network) : Option (Except Failure Network) := do
  let used ← n.usedCount?
  match n.declared with
  | none => some (.ok n)
  | some count =>
    if UInt64.ofNat count < used then do
      let highest ← minus? used 1
      some (.error (.configuration (.undeclaredEdge path count highest.toNat)))
    else some (.ok n)

theorem toNat_max (a b : UInt64) : (max a b).toNat = max a.toNat b.toNat := by
  show (if a ≤ b then b else a).toNat = _
  split
  · next h => exact (Nat.max_eq_right (UInt64.le_iff_toNat_le.mp h)).symm
  · next h =>
    have hle : b.toNat ≤ a.toNat := Nat.le_of_not_le fun hle => h (UInt64.le_iff_toNat_le.mpr hle)
    exact (Nat.max_eq_left hle).symm

theorem foldlM_usedCount? (edges : List Edge) (used : UInt64) :
    ∃ used', edges.foldlM (fun used e => (plus? e.id.toUInt64 1).map (max used)) used = some used' ∧
      used'.toNat = (edges.map (·.id.toNat + 1)).foldl max used.toNat := by
  induction edges generalizing used with
  | nil => exact ⟨used, rfl, rfl⟩
  | cons e rest ih =>
    obtain ⟨next, hplus, hnext⟩ := Word.plus?_of_lt (a := e.id.toUInt64) (b := 1)
      (Nat.lt_of_le_of_lt (Nat.succ_le_of_lt e.id.toNat_lt) (by decide))
    obtain ⟨used', hrest, hused'⟩ := ih (max used next)
    refine ⟨used', ?_, ?_⟩
    · rw [List.foldlM_cons, hplus, Option.map_some, Option.bind_eq_bind, Option.bind_some, hrest]
    · rw [hused', toNat_max, hnext, UInt32.toNat_toUInt64, UInt64.toNat_one,
        List.map_cons, List.foldl_cons]

theorem usedCount?_eq (n : Network) :
    ∃ used, n.usedCount? = some used ∧ used.toNat = n.usedCount :=
  foldlM_usedCount? n.edges 0

/-- A declared count is compared on 64 bits if it is a 64-bit number. Where the largest number in
use is told, there is one. -/
theorem checked?_eq (h : ∀ count, n.declared = some count → count < UInt64.size) (path : String) :
    n.checked? path = some (n.checked path) := by
  obtain ⟨used, hcounted, hused⟩ := usedCount?_eq n
  unfold checked? checked
  rw [hcounted, Option.bind_eq_bind, Option.bind_some]
  cases hdeclared : n.declared with
  | none => rfl
  | some count =>
    have hcount : (UInt64.ofNat count).toNat = count :=
      UInt64.toNat_ofNat_of_lt (h count hdeclared)
    have hless : UInt64.ofNat count < used ↔ count < n.usedCount := by
      rw [UInt64.lt_iff_toNat_lt, hcount, hused]
    simp only [hless]
    split
    · next hlt =>
      obtain ⟨highest, hminus, hhighest⟩ := Word.minus?_of_le (a := used) (b := 1) (by
        rw [hused, UInt64.toNat_one]
        omega)
      rw [hminus, Option.bind_some, hhighest, hused, UInt64.toNat_one]
    · rfl

theorem natBelow_lt {t : Json.Tree} {bound m : Nat} (h : t.natBelow bound = .ok m) : m < bound := by
  unfold Json.Tree.natBelow at h
  split at h
  · split at h
    · split at h
      · next hlt =>
        cases h
        exact hlt
      · cases h
    · cases h
  · cases h

theorem countOfTree_lt {t : Json.Tree} {count : Nat} (h : countOfTree t = .ok (some count)) :
    count < UInt64.size := by
  unfold countOfTree at h
  split at h
  · cases h
  · obtain ⟨m, hbelow, hsome⟩ := map_eq_ok h
    cases hsome
    exact natBelow_lt hbelow

/-- A count that a document declares is a 64-bit number. -/
theorem declared_lt (h : (Json.Tree.ofBytes bytes).bind ofTree = .ok n) {count : Nat}
    (hcount : n.declared = some count) : count < UInt64.size := by
  obtain ⟨t, -, htree⟩ := bind_eq_ok h
  unfold ofTree at htree
  obtain ⟨fields, -, htree⟩ := bind_eq_ok htree
  split at htree
  · next field _ =>
    obtain ⟨declared, hdeclared, htree⟩ := bind_eq_ok htree
    obtain ⟨edges, -, htree⟩ := bind_eq_ok htree
    cases htree
    subst hcount
    cases field with
    | none => cases hdeclared
    | some t => exact countOfTree_lt hdeclared
  · cases htree

end Network

/-! ## Sums of increments -/

namespace Build.Source

variable {edges : Way.EdgeMap} {table : Way.Table} {acc acc' : Store × Summary}
  {store filled : Store} {summary : Summary} {n : Nat}

/-- The increments so far, on 64 bits, when the next edge has been joined. -/
def joinSum? (edges : Way.EdgeMap) (table : Way.Table) (total : UInt64) (e : EdgeId) :
    Option UInt64 :=
  let k := popularityOf edges table e
  if k = 0 then some total else plus? total k.toUInt64

/-- The increments of a join of a network's edges, on 64 bits. -/
def increments? (edges : Way.EdgeMap) (table : Way.Table) (edgeCount : Nat) : Option UInt64 :=
  (List.range (edgeCount % UInt32.size)).foldlM
    (fun total e => joinSum? edges table total (UInt32.ofNat e)) 0

/-- The popularities of the edges that are visited. -/
def visited (edges : Way.EdgeMap) (table : Way.Table) (edgeCount : Nat) : List UInt32 :=
  (List.range (edgeCount % UInt32.size)).map fun e => popularityOf edges table (UInt32.ofNat e)

theorem joinSum?_eq (total : UInt64) (e : EdgeId) :
    joinSum? edges table total e = plus? total (popularityOf edges table e).toUInt64 := by
  simp only [joinSum?]
  split
  · next hzero =>
    have hnothing : (UInt32.toUInt64 0).toNat = 0 := rfl
    exact (Word.plus?_eq_some_iff.mpr (by rw [hzero, hnothing, Nat.add_zero])).symm
  · rfl

theorem increments?_eq (n : Nat) : increments? edges table n = sum? (visited edges table n) := by
  simp only [increments?, visited, sum?, joinSum?_eq, List.foldlM_map]

theorem length_visited (edges : Way.EdgeMap) (table : Way.Table) (n : Nat) :
    (visited edges table n).length ≤ UInt32.size := by
  rw [visited, List.length_map, List.length_range]
  exact Nat.le_of_lt (Nat.mod_lt n (by decide))

theorem increments_joinEdge {e : EdgeId} (h : joinEdge edges table acc e = .ok acc') :
    acc'.2.increments = acc.2.increments + (popularityOf edges table e).toNat := by
  simp only [joinEdge] at h
  split at h
  · next hzero =>
    cases h
    rw [hzero]
    rfl
  · obtain ⟨store, -, rfl⟩ := map_eq_ok h
    rfl

theorem increments_foldlM {ids : List Nat}
    (h : ids.foldlM (fun acc e => joinEdge edges table acc (UInt32.ofNat e)) acc = .ok acc') :
    acc'.2.increments = acc.2.increments +
      (ids.map fun e => (popularityOf edges table (UInt32.ofNat e)).toNat).sum := by
  induction ids generalizing acc with
  | nil =>
    cases h
    rfl
  | cons e rest ih =>
    rw [List.foldlM_cons] at h
    obtain ⟨next, hstep, hrest⟩ := bind_eq_ok h
    rw [ih hrest, increments_joinEdge hstep, List.map_cons, List.sum_cons, Nat.add_assoc]

/-- The summary of a join has the sum of the popularities that were visited. -/
theorem increments_joinWays (h : joinWays edges table store = .ok (filled, summary)) :
    summary.increments = ((visited edges table store.edgeCount).map UInt32.toNat).sum := by
  have hsum := increments_foldlM h
  rw [Nat.zero_add] at hsum
  rw [hsum, visited, List.map_map]
  rfl

/-- A new store is joined, and in it that is the sum of the counters. -/
theorem joinWays_fresh (hfresh : store.Fresh n) (edges : Way.EdgeMap) (table : Way.Table) :
    ∃ filled summary, joinWays edges table store = .ok (filled, summary) ∧
      summary.increments = (filled.records.toList.map UInt32.toNat).sum :=
  ⟨_, _, joinWays_eq hfresh, rfl⟩

end Build.Source

namespace Command

open Build (Source)

variable {network : Extent} {n : Nat} {records : Array UInt32}

/-- What an inspection tells last is the sum of the counters. -/
theorem last_of_inspect {d : Disk} {index : String} {id : FileId}
    (hopen : d.openFile index = .ok id) (hcontent : d.content id = Index.image records)
    (hmax : records.size ≤ UInt32.size) :
    (inspect d index).out.getLast? =
      some s!"Total increments:    {(records.toList.map UInt32.toNat).sum}" := by
  rw [inspect_of_image hopen hcontent hmax]
  rfl

/-- No size leaves the 64-bit numbers. For a network that an index can be made for, and any counters
of its edges, these are: the size of the index, in which the places of the records lie apart and
fill the file behind the header, and every edge number below the edge count is that of a record; the
sum of the counters, as an inspection tells it; and the increments of a join, which in a new store
are the sum of the counters. For documents they are the number of edges in use and, in a
document that is refused for its edge count, the largest number in use; and for files of any length
the number of their records. -/
theorem sizes_stay_in_range (hadmitted : network.admitted = .ok n) (hsize : records.size = n) :
    (∃ size, Index.byteSize? (UInt64.ofNat n) = some size ∧
      size.toNat = (Index.image records).length) ∧
    (∀ e f, e ≠ f → Disjoint (Index.recordPlaces e) (Index.recordPlaces f)) ∧
    (⋃ e < n, Index.recordPlaces e) = Set.Ico Index.headerSize (Index.image records).length ∧
    (∀ e, ∀ h : e < records.size,
      ((Index.image records).drop (4 + 4 * e)).take 4 = Index.word records[e]) ∧
    (∀ store : Store, store.records = records → ∀ e : EdgeId, e.toNat < n →
      ∃ count, store.get e = .ok count ∧ records[e.toNat]? = some count) ∧
    (∀ i < n, ∃ e : EdgeId, e.toNat = i) ∧
    (∃ total, sum? records.toList = some total ∧
      total.toNat = (records.toList.map UInt32.toNat).sum ∧
      total.toNat ≤ UInt64.size - UInt32.size ∧
      ∀ d index id, d.openFile index = .ok id → d.content id = Index.image records →
        (inspect d index).out.getLast? = some s!"Total increments:    {total.toNat}") ∧
    (∀ edges table, ∃ total, Source.increments? edges table n = some total ∧
      (∀ store filled summary, store.edgeCount = n →
        Source.joinWays edges table store = .ok (filled, summary) →
          summary.increments = total.toNat) ∧
      ∀ store, store.Fresh n → ∃ filled summary,
        Source.joinWays edges table store = .ok (filled, summary) ∧
          summary.increments = total.toNat ∧
          (filled.records.toList.map UInt32.toNat).sum = total.toNat) ∧
    (∀ bytes path document, (Json.Tree.ofBytes bytes).bind Network.ofTree = .ok document →
      (∃ used, document.usedCount? = some used ∧ used.toNat = document.usedCount) ∧
      document.checked? path = some (document.checked path)) ∧
    (∀ d path document, Network.load d path = .ok document →
      (∃ used, document.usedCount? = some used ∧ used.toNat = document.usedCount) ∧
      document.checked? path = some (.ok document)) ∧
    ∀ start length, Index.Header.read? start length =
      some (Index.Header.read start length.toNat) := by
  obtain ⟨-, hmax, hcount⟩ := Extent.admitted_eq_ok_iff.mp hadmitted
  have hmax : n ≤ UInt32.size := hcount ▸ hmax
  have hlength : (Index.image records).length = Index.byteSize n := by
    rw [Index.length_image, hsize]
  have hcompared (bytes : Bytes) (path : String) (document : Network)
      (hparsed : (Json.Tree.ofBytes bytes).bind Network.ofTree = .ok document) :
      document.checked? path = some (document.checked path) :=
    Network.checked?_eq (fun _ hdeclared => Network.declared_lt hparsed hdeclared) path
  refine ⟨?_, fun e f => Index.disjoint_recordPlaces, ?_,
    fun e h => Index.record_at_places records h, fun store hstore e he => ?_, fun i hi => ?_, ?_,
    fun edges table => ?_,
    fun bytes path document hparsed =>
      ⟨document.usedCount?_eq, hcompared bytes path document hparsed⟩,
    fun d path document hload => ⟨document.usedCount?_eq, ?_⟩, Index.Header.read?_eq⟩
  · rw [hlength]
    exact Index.byteSize?_of_le hmax
  · rw [hlength]
    exact Index.iUnion_recordPlaces n
  · subst hstore
    have hlt : e.toNat < store.records.size := hsize ▸ he
    exact ⟨_, Store.get_of_lt hlt, Array.getElem?_eq_getElem hlt⟩
  · exact ⟨UInt32.ofNat i, UInt32.toNat_ofNat_of_lt (Nat.lt_of_lt_of_le hi hmax)⟩
  · have hrecords : records.size ≤ UInt32.size := hsize ▸ hmax
    have hlist : records.toList.length ≤ UInt32.size := Array.length_toList ▸ hrecords
    obtain ⟨total, hsum, htotal, hle⟩ := Word.sum?_of_length_le hlist
    refine ⟨total, hsum, htotal, hle, fun d index id hopen hcontent => ?_⟩
    rw [last_of_inspect hopen hcontent hrecords, htotal]
  · obtain ⟨total, hsum, htotal, -⟩ :=
      Word.sum?_of_length_le (Source.length_visited edges table n)
    have hincrements (store filled : Store) (summary : Build.Summary) (hedges : store.edgeCount = n)
        (hjoin : Source.joinWays edges table store = .ok (filled, summary)) :
        summary.increments = total.toNat := by
      rw [Source.increments_joinWays hjoin, hedges, htotal]
    refine ⟨total, (Source.increments?_eq n).trans hsum, hincrements, fun store hfresh => ?_⟩
    obtain ⟨filled, summary, hjoin, hcounters⟩ := Source.joinWays_fresh hfresh edges table
    have htold := hincrements store filled summary hfresh.size_eq hjoin
    exact ⟨filled, summary, hjoin, htold, hcounters.symm.trans htold⟩
  · obtain ⟨bytes, -, hparsed, hchecked⟩ := Network.checked_of_load hload
    rw [hcompared bytes path document hparsed, hchecked]

/-- The largest counters of the largest network: their sum falls short of the 64-bit numbers by one
counter and one. -/
theorem sizes_of_all_numbers :
    ∃ size total, Index.byteSize? (UInt64.ofNat UInt32.size) = some size ∧
      size.toNat = 4 + UInt32.size * 4 ∧
      sum? (List.replicate UInt32.size 0xffffffff) = some total ∧
      total.toNat = UInt64.size - UInt32.size ∧
      Network.checked? "network" ⟨some 3, []⟩ = some (.ok ⟨some 3, []⟩) := by
  have hadmitted : Extent.admitted ⟨UInt32.size, false⟩ = .ok UInt32.size :=
    Extent.admitted_eq_ok_iff.mpr ⟨rfl, Nat.le_refl _, rfl⟩
  have hcount : (Array.replicate UInt32.size (0xffffffff : UInt32)).size = UInt32.size :=
    Array.size_replicate
  obtain ⟨⟨size, hsize, hlength⟩, -, -, -, -, -, ⟨total, hsum, htotal, -, -⟩, -, -, hload, -⟩ :=
    sizes_stay_in_range hadmitted hcount
  rw [Index.length_image, Array.size_replicate] at hlength
  rw [Array.toList_replicate] at hsum htotal
  refine ⟨size, total, hsize, hlength, hsum, ?_, (hload _ _ _ (network_surveyed [])).2⟩
  rw [htotal, List.map_replicate, List.sum_replicate, Nat.nsmul_eq_mul]
  decide

end Command

end Ridership
