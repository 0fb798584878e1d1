import Ridership.Proofs.Store.Flushing

/-!
# Reading an index

The bytes of a file decide what becomes of it, in a fixed order: whether there is a header, whether
the last record is whole, whether the first word is the magic word, and whether there are as many
records as the network has edges. The header alone is read from the first word and the length of
the file, and the first two of these are decided alike.
-/

namespace Ridership

namespace Index

variable {bytes : Bytes}

/-- The number of whole records behind the header. -/
def wholeRecords (bytes : Bytes) : Nat :=
  (bytes.length - headerSize) / recordWidth

/-- Behind a header there is no record that is cut off. -/
def EndsWhole (bytes : Bytes) : Prop :=
  headerSize ≤ bytes.length ∧ (bytes.length - headerSize) % recordWidth = 0

/-- Behind a header a record is cut off. -/
def EndsInRecord (bytes : Bytes) : Prop :=
  headerSize ≤ bytes.length ∧ (bytes.length - headerSize) % recordWidth ≠ 0

theorem shape (bytes : Bytes) :
    bytes.length < headerSize ∨ EndsInRecord bytes ∨ EndsWhole bytes := by
  unfold EndsInRecord EndsWhole
  omega

theorem exists_first_word (h : headerSize ≤ bytes.length) :
    ∃ a b c d rest, bytes = a :: b :: c :: d :: rest := by
  rcases bytes with _ | ⟨a, _ | ⟨b, _ | ⟨c, _ | ⟨d, rest⟩⟩⟩⟩ <;> simp [headerSize] at h
  exact ⟨a, b, c, d, rest, rfl⟩

/-- Only the first word is looked at, and the length. -/
theorem read_take (bytes : Bytes) (length : Nat) :
    Header.read (bytes.take headerSize) length = Header.read bytes length := by
  rcases bytes with _ | ⟨a, _ | ⟨b, _ | ⟨c, _ | ⟨d, rest⟩⟩⟩⟩ <;> rfl

theorem read_short (h : bytes.length < headerSize) :
    Header.read bytes bytes.length = .error ⟨headerSize, bytes.length⟩ := by
  unfold Header.read
  split
  · exact if_pos h
  · rfl

theorem read_of_length {a b c d : UInt8} {rest : Bytes} {length : Nat}
    (h : headerSize ≤ length) :
    Header.read (a :: b :: c :: d :: rest) length =
      if (length - headerSize) % recordWidth = 0 then
        .ok ⟨ofWord a b c d, (length - headerSize) / recordWidth⟩
      else .error ⟨(length - headerSize) / recordWidth + 1, (length - headerSize) / recordWidth⟩ :=
  if_neg (Nat.not_lt.mpr h)

theorem read_cut (h : EndsInRecord bytes) :
    Header.read bytes bytes.length = .error ⟨wholeRecords bytes + 1, wholeRecords bytes⟩ := by
  obtain ⟨hlen, hcut⟩ := h
  obtain ⟨a, b, c, d, rest, rfl⟩ := exists_first_word hlen
  rw [read_of_length hlen]
  exact if_neg hcut

theorem read_whole (h : EndsWhole bytes) :
    ∃ found, bytes.take headerSize = word found ∧
      Header.read bytes bytes.length = .ok ⟨found, wholeRecords bytes⟩ := by
  obtain ⟨hlen, hwhole⟩ := h
  obtain ⟨a, b, c, d, rest, rfl⟩ := exists_first_word hlen
  refine ⟨ofWord a b c d, (word_ofWord a b c d).symm, ?_⟩
  rw [read_of_length hlen]
  exact if_pos hwhole

theorem word_injective {m n : UInt32} (h : word m = word n) : m = n := by
  rw [← ofWord_word m, ← ofWord_word n]
  simp only [word, List.cons.injEq, and_true] at h
  obtain ⟨h₀, h₁, h₂, h₃⟩ := h
  rw [h₀, h₁, h₂, h₃]

/-- The words of a list stand one behind the other. -/
theorem take_drop_flatMap_word (l : List UInt32) {i : Nat} (h : i < l.length) :
    ((l.flatMap word).drop (i * recordWidth)).take recordWidth = word l[i] := by
  induction l generalizing i with
  | nil => cases h
  | cons n rest ih =>
    rw [List.flatMap_cons]
    cases i with
    | zero =>
      rw [Nat.zero_mul, List.drop_zero]
      exact List.take_left' (length_word n)
    | succ i =>
      have hskip : (word n ++ rest.flatMap word).drop ((i + 1) * recordWidth) =
          (rest.flatMap word).drop (i * recordWidth) := by
        rw [Nat.succ_mul, Nat.add_comm, ← List.drop_drop, List.drop_left' (length_word n)]
      rw [hskip]
      exact ih (Nat.lt_of_succ_lt_succ h)

/-- The record of an edge stands at a place of its own. -/
theorem record_of_image (records : Array UInt32) {e : Nat} (h : e < records.size) :
    ((image records).drop (byteSize e)).take recordWidth = word records[e] := by
  have hbody : (image records).drop headerSize = body records :=
    List.drop_left' (length_word magic)
  rw [byteSize, ← List.drop_drop, hbody]
  exact take_drop_flatMap_word records.toList h

end Index

namespace Store

open Index (wholeRecords EndsWhole EndsInRecord headerSize recordWidth)

variable {d : Disk} {path : String} {id : FileId} {network : Extent} {bytes : Bytes} {n : Nat}

theorem load_of_error (hn : network.admitted = .ok n) (ho : d.openFile path = .ok id)
    {m : Index.SizeMismatch}
    (h : Index.Header.read (d.content id) (d.content id).length = .error m) :
    load d path network = .error (.sizeMismatch path m.expected m.found) := by
  unfold load
  rw [hn, ho]
  simp only [bind, Except.bind, h]
  rfl

theorem load_of_header (hn : network.admitted = .ok n) (ho : d.openFile path = .ok id)
    {h : Index.Header} (hr : Index.Header.read (d.content id) (d.content id).length = .ok h) :
    (h.magic ≠ Index.magic →
      load d path network = .error (.formatVersion path Index.magic h.magic)) ∧
    (h.magic = Index.magic → h.recordCount ≠ n →
      load d path network = .error (.sizeMismatch path n h.recordCount)) := by
  unfold load
  rw [hn, ho]
  simp only [bind, Except.bind, hr]
  constructor
  · intro hm
    have hc : h.isCurrent = false := by simpa [Index.Header.isCurrent] using hm
    rw [hc]
    rfl
  · intro hm hcount
    have hc : h.isCurrent = true := by simpa [Index.Header.isCurrent] using hm
    rw [hc]
    exact if_pos hcount

theorem header_eq (ho : d.openFile path = .ok id) :
    header d path =
      match Index.Header.read (d.content id) (d.content id).length with
      | .error m => .error (.sizeMismatch path m.expected m.found)
      | .ok h => .ok h := by
  unfold header
  rw [ho]
  simp only [Index.read_take]
  rfl

/-- The header cannot be read where it is not whole, or where the last record is not. -/
theorem header_eq_error_iff (ho : d.openFile path = .ok id) {f : Failure} :
    header d path = .error f ↔
      ((d.content id).length < headerSize ∧
        f = .sizeMismatch path headerSize (d.content id).length) ∨
      (EndsInRecord (d.content id) ∧
        f = .sizeMismatch path (wholeRecords (d.content id) + 1)
          (wholeRecords (d.content id))) := by
  rw [header_eq ho]
  rcases Index.shape (d.content id) with hshort | hcut | hwhole
  · have hno : ¬EndsInRecord (d.content id) := fun h => Nat.not_le.mpr hshort h.1
    rw [Index.read_short hshort]
    simp [hshort, hno, eq_comm]
  · have hno : ¬(d.content id).length < headerSize := Nat.not_lt.mpr hcut.1
    rw [Index.read_cut hcut]
    simp [hcut, hno, eq_comm]
  · have hlong : ¬(d.content id).length < headerSize := Nat.not_lt.mpr hwhole.1
    have hno : ¬EndsInRecord (d.content id) := fun h => h.2 hwhole.2
    obtain ⟨first, -, hread⟩ := Index.read_whole hwhole
    rw [hread]
    simp [hlong, hno]

theorem header_eq_ok_iff (ho : d.openFile path = .ok id) {h : Index.Header} :
    header d path = .ok h ↔
      EndsWhole (d.content id) ∧ (d.content id).take headerSize = Index.word h.magic ∧
        h.recordCount = wholeRecords (d.content id) := by
  rw [header_eq ho]
  rcases Index.shape (d.content id) with hshort | hcut | hwhole
  · have hno : ¬EndsWhole (d.content id) := fun h => Nat.not_le.mpr hshort h.1
    rw [Index.read_short hshort]
    simp [hno]
  · have hno : ¬EndsWhole (d.content id) := fun h => hcut.2 h.2
    rw [Index.read_cut hcut]
    simp [hno]
  · obtain ⟨first, hfirst, hread⟩ := Index.read_whole hwhole
    rw [hread, hfirst]
    constructor
    · rintro ⟨⟩
      exact ⟨hwhole, rfl, rfl⟩
    · rintro ⟨-, hmagic, hcount⟩
      rw [Index.word_injective hmagic, ← hcount]

/-- A network with as many edges as the header tells has its store exactly if the header is that of
the present format. -/
theorem load_iff_isCurrent (ho : d.openFile path = .ok id) {h : Index.Header}
    (hr : header d path = .ok h) (hmax : h.recordCount ≤ UInt32.size) :
    (∃ s, load d path ⟨h.recordCount, false⟩ = .ok (some s)) ↔ h.isCurrent = true := by
  rw [header_eq ho] at hr
  have hread : Index.Header.read (d.content id) (d.content id).length = .ok h := by
    split at hr
    · cases hr
    · next hread =>
      cases hr
      exact hread
  constructor
  · rintro ⟨s, hload⟩
    obtain ⟨-, -, id', records, ho', hbytes, hsize, -⟩ := load_eq_some_iff.mp hload
    obtain ⟨h', hread', hcurrent, -⟩ := Index.read_current_iff.mpr ⟨records, hbytes, hsize⟩
    rw [ho] at ho'
    cases ho'
    rw [hread] at hread'
    cases hread'
    exact hcurrent
  · intro hcurrent
    obtain ⟨records, hbytes, hsize⟩ := Index.read_current_iff.mp ⟨h, hread, hcurrent, rfl⟩
    exact ⟨_, load_eq_some_iff.mpr ⟨rfl, hmax, id, records, ho, hbytes, hsize, rfl⟩⟩

/-- A store is loaded from a file exactly if its bytes are the image of as many records as the
network has edges; these records are then the ones of the store, and no others have the image. Any
other file is refused for the first thing that is wrong with it, and reading only the header fails
for the first two of them. -/
theorem reading_is_exact (ho : d.openFile path = .ok id) (hbase : network.contracted = false)
    (hmax : network.edgeCount ≤ UInt32.size) :
    let bytes := d.content id
    let whole := wholeRecords bytes
    (∀ s, load d path network = .ok (some s) ↔ ∃ records : Array UInt32,
      bytes = Index.image records ∧ records.size = network.edgeCount ∧
        s = ⟨path, id, records, true⟩) ∧
    (∀ records : Array UInt32, bytes = Index.image records →
      (∀ others, bytes = Index.image others → others = records) ∧
      (∀ e, ∀ h : e < records.size,
        (bytes.drop (Index.byteSize e)).take recordWidth = Index.word records[e]) ∧
      ∀ (s : Store) (disk : Disk), s.readOnly = false → s.records = records →
        s.file < disk.contents.length → (disk.content s.file).length = bytes.length →
        disk.Affords (Index.byteSize records.size + headerSize) 2 →
        ∃ after, s.flush disk = (after, .ok ()) ∧ after.content s.file = bytes) ∧
    (bytes.length < headerSize →
      load d path network = .error (.sizeMismatch path headerSize bytes.length)) ∧
    (EndsInRecord bytes →
      load d path network = .error (.sizeMismatch path (whole + 1) whole)) ∧
    (EndsWhole bytes → ∃ first, bytes.take headerSize = Index.word first ∧
      (first ≠ Index.magic →
        load d path network = .error (.formatVersion path Index.magic first)) ∧
      (first = Index.magic → whole ≠ network.edgeCount →
        load d path network = .error (.sizeMismatch path network.edgeCount whole))) ∧
    (∀ f, header d path = .error f ↔
      (bytes.length < headerSize ∧ f = .sizeMismatch path headerSize bytes.length) ∨
      (EndsInRecord bytes ∧ f = .sizeMismatch path (whole + 1) whole)) ∧
    (∀ h, header d path = .ok h →
      bytes.take headerSize = Index.word h.magic ∧ h.recordCount = whole ∧
      (h.recordCount ≤ UInt32.size →
        ((∃ s, load d path ⟨h.recordCount, false⟩ = .ok (some s)) ↔ h.isCurrent = true))) := by
  intro bytes whole
  have hn : network.admitted = .ok network.edgeCount :=
    Extent.admitted_eq_ok_iff.mpr ⟨hbase, hmax, rfl⟩
  refine ⟨fun s => ?_, fun records hbytes => ⟨fun others hothers => ?_, fun e he => ?_, ?_⟩,
    fun hshort => ?_, fun hcut => ?_, fun hwhole => ?_, fun f => header_eq_error_iff ho,
    fun h hheader => ?_⟩
  · rw [load_eq_some_iff]
    constructor
    · rintro ⟨-, -, id', records, ho', hbytes, hsize, rfl⟩
      rw [ho] at ho'
      cases ho'
      exact ⟨records, hbytes, hsize, rfl⟩
    · rintro ⟨records, hbytes, hsize, rfl⟩
      exact ⟨hbase, hmax, id, records, ho, hbytes, hsize, rfl⟩
  · exact Index.image_injective (hothers.symm.trans hbytes)
  · rw [hbytes]
    exact Index.record_of_image records he
  · rintro s disk hw rfl hid hlen hdisk
    rw [hbytes, Index.length_image] at hlen
    obtain ⟨after, hflush, -, hcontent⟩ := flush_image hw hid hlen hdisk
    exact ⟨after, hflush, hcontent.trans hbytes.symm⟩
  · exact load_of_error hn ho (Index.read_short hshort)
  · exact load_of_error hn ho (Index.read_cut hcut)
  · obtain ⟨first, hfirst, hread⟩ := Index.read_whole hwhole
    exact ⟨first, hfirst, load_of_header hn ho hread⟩
  · obtain ⟨-, hfirst, hcount⟩ := (header_eq_ok_iff ho).mp hheader
    exact ⟨hfirst, hcount, load_iff_isCurrent ho hheader⟩

/-- An index of two records is loaded for two edges. For three it is not, and a file of six bytes
is refused for its last record whatever its first word is. -/
theorem reading_two_records :
    (∃ s, load (Index.soleFile (Index.image #[7, 9])) "index" ⟨2, false⟩ = .ok (some s)) ∧
      load (Index.soleFile [1, 2, 3, 4, 5, 6]) "index" ⟨3, false⟩ =
        .error (.sizeMismatch "index" 1 0) := by
  have ho (content : Bytes) : (Index.soleFile content).openFile "index" = .ok 0 :=
    Disk.openFile_eq_ok_iff.mpr ⟨_, Index.locate_soleFile content⟩
  have hmax : 3 ≤ UInt32.size := by decide
  obtain ⟨hload, -⟩ := @reading_is_exact _ _ _ ⟨2, false⟩ (ho (Index.image #[7, 9])) rfl
    (Nat.le_of_succ_le hmax)
  obtain ⟨-, -, -, hcut, -⟩ := @reading_is_exact _ _ _ ⟨3, false⟩ (ho [1, 2, 3, 4, 5, 6]) rfl hmax
  exact ⟨⟨_, (hload _).mpr ⟨#[7, 9], rfl, rfl, rfl⟩⟩, hcut ⟨by decide, by decide⟩⟩

end Store

end Ridership
