import Ridership.Proofs.Index.Overwriting

/-!
# Losing power while an index is written

What is written reaches the medium byte by byte and in no particular order, until a barrier makes
all of it durable. A power loss keeps any part of what was written since. The one barrier of the
writing stands behind the records, and none between the cleared magic word and the records: so a
byte of a new record may survive under the old magic word, and the file is then an index of neither
the old nor the new records. It is safe to lose power from the barrier on, and before it as long as
the bytes written so far are those of the old index or complete the new one alone.
-/

namespace Ridership.Index

open Disk (overlay)

/-! ## What a power loss leaves -/

/-- The bytes of a write, each with its own offset. -/
def scatter (offset : Nat) (bytes : Bytes) : List (Nat × UInt8) :=
  bytes.mapIdx fun i b => (offset + i, b)

def Step.bytewise : Step → List Step
  | .write offset bytes => (scatter offset bytes).map fun w => .write w.1 [w.2]
  | .barrier => [.barrier]

/-- The bytes of a file that are durable, and those written since the last barrier. -/
structure Medium where
  durable : Bytes
  pending : List (Nat × UInt8) := []

/-- A content after writing single bytes one after another. -/
def poke (content : Bytes) (writes : List (Nat × UInt8)) : Bytes :=
  writes.foldl (fun c w => overlay c w.1 [w.2]) content

namespace Medium

/-- What a step does: a write stays pending until the next barrier. -/
def step (m : Medium) : Step → Medium
  | .write offset bytes => { m with pending := m.pending ++ scatter offset bytes }
  | .barrier => { durable := poke m.durable m.pending }

def run (m : Medium) (steps : List Step) : Medium :=
  steps.foldl step m

/-- What a power loss may leave: any part of the pending bytes, written in any order. -/
def Leaves (m : Medium) (content : Bytes) : Prop :=
  ∃ order kept, order.Perm m.pending ∧ kept.Sublist order ∧ content = poke m.durable kept

end Medium

/-- No store is loaded from this content, wherever it is found and for whatever network. -/
def Rejected (content : Bytes) : Prop :=
  ∀ (d : Disk) (path : String) (id : FileId) (network : Extent) (s : Store),
    d.openFile path = .ok id → d.content id = content →
      Store.load d path network ≠ .ok (some s)

/-! ## Bytes written one by one -/

theorem length_scatter (offset : Nat) (bytes : Bytes) :
    (scatter offset bytes).length = bytes.length := by
  simp [scatter]

theorem mem_scatter {offset j : Nat} {bytes : Bytes} {b : UInt8} :
    (j, b) ∈ scatter offset bytes ↔ ∃ i, j = offset + i ∧ bytes[i]? = some b := by
  simp only [scatter, List.mem_mapIdx, Prod.mk.injEq, List.getElem?_eq_some_iff]
  constructor
  · rintro ⟨i, hi, rfl, rfl⟩
    exact ⟨i, rfl, hi, rfl⟩
  · rintro ⟨i, rfl, hi, rfl⟩
    exact ⟨i, hi, rfl, rfl⟩

theorem scatter_cons (offset : Nat) (b : UInt8) (bytes : Bytes) :
    scatter offset (b :: bytes) = (offset, b) :: scatter (offset + 1) bytes := by
  simp [scatter, List.mapIdx_cons, Nat.add_assoc, Nat.add_comm 1]

theorem scatter_append (offset : Nat) (a b : Bytes) :
    scatter offset (a ++ b) = scatter offset a ++ scatter (offset + a.length) b := by
  simp [scatter, List.mapIdx_append, Nat.add_assoc, Nat.add_comm a.length]

/-- To write single bytes in order is to write them at once. -/
theorem poke_scatter {content : Bytes} {offset : Nat} (h : offset ≤ content.length)
    (bytes : Bytes) : poke content (scatter offset bytes) = overlay content offset bytes := by
  induction bytes generalizing content offset with
  | nil => exact (Disk.overlay_nil h).symm
  | cons b bytes ih =>
    have hlen : offset + 1 ≤ (overlay content offset [b]).length := by
      rw [Disk.length_overlay, List.length_singleton]
      exact Nat.le_max_right _ _
    have hstart : (content.take offset).length = offset := List.length_take_of_le h
    rw [scatter_cons]
    show poke (overlay content offset [b]) (scatter (offset + 1) bytes) = _
    rw [ih hlen, ← List.take_append_drop offset content, Disk.overlay_append hstart,
      Disk.overlay_append hstart, Disk.overlay_append (by simp [hstart]), List.drop_drop]
    simp [Nat.add_comm]

theorem overlay_byte {content : Bytes} {i : Nat} (h : i < content.length) (b : UInt8) :
    overlay content i [b] = content.set i b := by
  have hstart : (content.take i).length = i := List.length_take_of_le (Nat.le_of_lt h)
  have hset := List.set_eq_take_append_cons_drop (l := content) (i := i) (a := b)
  rw [if_pos h] at hset
  rw [hset]
  conv => lhs; rw [← List.take_append_drop i content]
  rw [Disk.overlay_append hstart]
  simp

/-- After some bytes of a content were written, each byte is one of those or as it was. -/
theorem poke_spec {content : Bytes} {writes : List (Nat × UInt8)}
    (h : ∀ w ∈ writes, w.1 < content.length) :
    (poke content writes).length = content.length ∧
      ∀ j, (poke content writes)[j]? = content[j]? ∨
        ∃ b, (j, b) ∈ writes ∧ (poke content writes)[j]? = some b := by
  induction writes generalizing content with
  | nil => exact ⟨rfl, fun j => .inl rfl⟩
  | cons w writes ih =>
    have hw : w.1 < content.length := h w List.mem_cons_self
    have hpoke : poke content (w :: writes) = poke (content.set w.1 w.2) writes := by
      rw [← overlay_byte hw]
      rfl
    have hrest : ∀ v ∈ writes, v.1 < (content.set w.1 w.2).length := by
      intro v hv
      rw [List.length_set]
      exact h v (List.mem_cons_of_mem w hv)
    obtain ⟨hlen, hbytes⟩ := ih hrest
    rw [hpoke]
    refine ⟨by rw [hlen, List.length_set], fun j => ?_⟩
    rcases hbytes j with hold | ⟨b, hb, hnew⟩
    · by_cases hj : w.1 = j
      · subst hj
        exact .inr ⟨w.2, List.mem_cons_self, by rw [hold, List.getElem?_set_self hw]⟩
      · exact .inl (by rw [hold, List.getElem?_set_ne hj])
    · exact .inr ⟨b, List.mem_cons_of_mem w hb, hnew⟩

/-- What is left after a power loss has the length of the file, and each of its bytes is durable
or was pending. -/
theorem Medium.Leaves.spec {m : Medium} {content : Bytes} (h : m.Leaves content)
    (hin : ∀ w ∈ m.pending, w.1 < m.durable.length) :
    content.length = m.durable.length ∧
      ∀ j, content[j]? = m.durable[j]? ∨ ∃ b, (j, b) ∈ m.pending ∧ content[j]? = some b := by
  obtain ⟨order, kept, hperm, hsub, rfl⟩ := h
  have hmem : ∀ w ∈ kept, w ∈ m.pending := fun w hw => hperm.mem_iff.mp (hsub.subset hw)
  obtain ⟨hlen, hbytes⟩ := poke_spec fun w hw => hin w (hmem w hw)
  refine ⟨hlen, fun j => (hbytes j).imp_right ?_⟩
  rintro ⟨b, hb, hj⟩
  exact ⟨b, hmem _ hb, hj⟩

/-! ## The moments of a writing -/

def Step.byte (w : Nat × UInt8) : Step :=
  .write w.1 [w.2]

/-- The medium after the first `k` bytes and barriers of saving an index over a durable file. -/
def moment (old : Bytes) (records : Array UInt32) (k : Nat) : Medium :=
  Medium.run ⟨old, []⟩ (((savingSteps records).flatMap Step.bytewise).take k)

theorem run_bytes (m : Medium) (writes : List (Nat × UInt8)) :
    m.run (writes.map Step.byte) = { m with pending := m.pending ++ writes } := by
  induction writes generalizing m with
  | nil => simp [Medium.run]
  | cons w writes ih =>
    show (m.step (Step.byte w)).run (writes.map Step.byte) = _
    rw [ih]
    simp [Medium.step, Step.byte, scatter]

theorem run_barrier (m : Medium) (writes : List (Nat × UInt8)) (rest : List Step) :
    m.run (writes.map Step.byte ++ .barrier :: rest) =
      Medium.run ⟨poke m.durable (m.pending ++ writes), []⟩ rest := by
  have hbytes := run_bytes m writes
  unfold Medium.run at hbytes ⊢
  rw [List.foldl_append, hbytes]
  rfl

theorem bytewise_savingSteps (records : Array UInt32) :
    (savingSteps records).flatMap Step.bytewise =
      (scatter 0 (word 0 ++ body records)).map Step.byte ++
        .barrier :: ((scatter 0 (word magic)).map Step.byte ++ [.barrier]) := by
  rw [scatter_append, List.map_append]
  simp only [savingSteps, steps, List.flatMap_cons, List.flatMap_nil,
    List.cons_append, List.nil_append, List.append_nil, List.append_assoc]
  rfl

theorem length_cleared (records : Array UInt32) :
    (word 0 ++ body records).length = byteSize records.size := by
  rw [List.length_append, length_body]
  rfl

/-- Up to the barrier nothing is durable but the old content. -/
theorem moment_before (old : Bytes) {records : Array UInt32} {k : Nat}
    (hk : k ≤ byteSize records.size) :
    moment old records k = ⟨old, (scatter 0 (word 0 ++ body records)).take k⟩ := by
  have hlen : k ≤ ((scatter 0 (word 0 ++ body records)).map Step.byte).length := by
    rw [List.length_map, length_scatter, length_cleared]
    exact hk
  rw [moment, bytewise_savingSteps, List.take_append_of_le_length hlen, ← List.map_take,
    run_bytes, List.nil_append]

theorem moment_barrier (old : Bytes) (records : Array UInt32) (j : Nat) :
    moment old records (byteSize records.size + 1 + j) =
      Medium.run ⟨word 0 ++ body records ++ old.drop (byteSize records.size), []⟩
        (((scatter 0 (word magic)).map Step.byte ++ [Step.barrier]).take j) := by
  have hrecords : poke old (scatter 0 (word 0 ++ body records)) =
      word 0 ++ body records ++ old.drop (byteSize records.size) := by
    rw [poke_scatter (Nat.zero_le _), Disk.overlay_zero, length_cleared]
  have hlen : ((scatter 0 (word 0 ++ body records)).map Step.byte).length =
      byteSize records.size := by
    rw [List.length_map, length_scatter, length_cleared]
  have htake : byteSize records.size + 1 + j =
      ((scatter 0 (word 0 ++ body records)).map Step.byte).length + (j + 1) := by
    rw [hlen, Nat.add_assoc, Nat.add_comm 1]
  rw [moment, bytewise_savingSteps, htake, List.take_length_add_append, List.take_succ_cons,
    run_barrier, List.nil_append, hrecords]

/-- From the barrier on some bytes of the magic word are pending. -/
theorem moment_magic (old : Bytes) (records : Array UInt32) {j : Nat} (hj : j ≤ headerSize) :
    moment old records (byteSize records.size + 1 + j) =
      ⟨word 0 ++ body records ++ old.drop (byteSize records.size),
        (scatter 0 (word magic)).take j⟩ := by
  have hlen : j ≤ ((scatter 0 (word magic)).map Step.byte).length := hj
  rw [moment_barrier, List.take_append_of_le_length hlen, ← List.map_take, run_bytes,
    List.nil_append]

theorem moment_complete (old : Bytes) (records : Array UInt32) {j : Nat} (hj : headerSize < j) :
    moment old records (byteSize records.size + 1 + j) = ⟨overwritten old records, []⟩ := by
  have hlen : ((scatter 0 (word magic)).map Step.byte ++ [Step.barrier]).length ≤ j := hj
  rw [moment_barrier, List.take_of_length_le hlen, run_barrier, List.nil_append,
    poke_scatter (Nat.zero_le _), overlay_magic]
  rfl

/-- If power is not lost the medium holds durably what saving leaves in the file. -/
theorem moment_saved {d : Disk} {id : FileId} (hid : id < d.contents.length)
    (records : Array UInt32) (hd : d.Affords (byteSize records.size + headerSize) 2) {j : Nat}
    (hj : headerSize < j) :
    moment (d.content id) records (byteSize records.size + 1 + j) =
      ⟨(save d id records).1.content id, []⟩ := by
  obtain ⟨d', hsave, -, hcontent⟩ := save_complete hid records hd
  rw [moment_complete _ _ hj, hsave, hcontent]

/-! ## What can be loaded afterwards -/

theorem openFile_soleFile (content : Bytes) : (soleFile content).openFile "index" = .ok 0 :=
  Disk.openFile_eq_ok_iff.mpr ⟨["index"], locate_soleFile content⟩

theorem not_rejected_image {records : Array UInt32} (h : records.size ≤ UInt32.size) :
    ¬Rejected (image records) := fun hrej =>
  hrej (soleFile (image records)) "index" 0 ⟨records.size, false⟩ _ (openFile_soleFile _) rfl
    (Store.load_eq_some_iff.mpr ⟨rfl, h, 0, records, openFile_soleFile _, rfl, rfl, rfl⟩)

theorem rejected_of_not_current {content : Bytes} (h : ¬Current content) : Rejected content := by
  intro d path id network s ho hc
  apply Store.load_ne_some ho
  rwa [hc]

theorem getElem?_image_header (records : Array UInt32) {i : Nat} (h : i < headerSize) :
    (image records)[i]? = (word magic)[i]? :=
  List.getElem?_append_left h

/-- Behind the magic word an image is what the file is before that word is written. -/
theorem getElem?_image_body (records : Array UInt32) {i : Nat} (h : headerSize ≤ i) :
    (image records)[i]? = (word 0 ++ body records)[i]? := by
  rw [image, List.getElem?_append_right h, List.getElem?_append_right h]
  rfl

/-- An index is the image of the records that its bytes behind the magic word belong to. -/
theorem eq_image_of_current {content : Bytes} {records : Array UInt32} (hc : Current content)
    (h : ∀ i, headerSize ≤ i → content[i]? = (image records)[i]?) : content = image records := by
  obtain ⟨found, rfl⟩ := current_iff.mp hc
  apply List.ext_getElem?
  intro i
  by_cases hi : i < headerSize
  · rw [getElem?_image_header found hi, getElem?_image_header records hi]
  · exact h i (Nat.le_of_not_lt hi)

/-- The images of two lists of records differ at a byte. -/
def DifferAt (old new : Array UInt32) (i : Nat) : Prop :=
  (image old)[i]? ≠ (image new)[i]?

theorem DifferAt.body {old new : Array UInt32} {i : Nat} (h : DifferAt old new i) :
    headerSize ≤ i := by
  apply Nat.le_of_not_lt
  intro hi
  exact h (by rw [getElem?_image_header old hi, getElem?_image_header new hi])

/-- Once the records are durable the new index is all that can be loaded. -/
theorem safe_after {old : Bytes} {new : Array UInt32} {k : Nat} {content : Bytes}
    (hlen : old.length = byteSize new.size) (hk : byteSize new.size < k)
    (h : (moment old new k).Leaves content) : content = image new ∨ Rejected content := by
  obtain ⟨j, rfl⟩ : ∃ j, k = byteSize new.size + 1 + j := ⟨k - byteSize new.size - 1, by omega⟩
  have hdrop : old.drop (byteSize new.size) = [] := by rw [← hlen, List.drop_length]
  by_cases hj : j ≤ headerSize
  · rw [moment_magic old new hj, hdrop, List.append_nil] at h
    have hpending : ∀ w ∈ (scatter 0 (word magic)).take j, w.1 < headerSize := by
      rintro ⟨i, b⟩ hw
      obtain ⟨i', rfl, hi⟩ := mem_scatter.mp (List.mem_of_mem_take hw)
      obtain ⟨hlt, -⟩ := List.getElem?_eq_some_iff.mp hi
      rw [Nat.zero_add]
      exact hlt
    obtain ⟨-, hbytes⟩ := h.spec (fun w hw => by
      have := hpending w hw
      rw [length_cleared]
      unfold byteSize
      omega)
    by_cases hc : Current content
    · refine .inl (eq_image_of_current hc fun i hi => ?_)
      rw [getElem?_image_body new hi]
      rcases hbytes i with hb | ⟨b, hb, -⟩
      · exact hb
      · exact absurd (hpending _ hb) (Nat.not_lt.mpr hi)
    · exact .inr (rejected_of_not_current hc)
  · rw [moment_complete old new (Nat.lt_of_not_le hj), overwritten, hdrop, List.append_nil] at h
    obtain ⟨order, kept, hperm, hsub, rfl⟩ := h
    rw [hperm.eq_nil, List.sublist_nil] at hsub
    rw [hsub]
    exact .inl rfl

/-- Before the barrier a byte is old, or it was written and is new behind the magic word. -/
theorem Medium.Leaves.before {old new : Array UInt32} {k : Nat} {content : Bytes}
    (hsize : new.size = old.size) (hk : k ≤ byteSize new.size)
    (h : (moment (image old) new k).Leaves content) (i : Nat) (hi : headerSize ≤ i) :
    content[i]? = (image old)[i]? ∨ i < k ∧ content[i]? = (image new)[i]? := by
  rw [moment_before _ hk] at h
  have hpending : ∀ j b, (j, b) ∈ (scatter 0 (word 0 ++ Index.body new)).take k →
      j < k ∧ (word 0 ++ Index.body new)[j]? = some b := by
    intro j b hw
    obtain ⟨i, hik, hget⟩ := List.mem_take_iff_getElem.mp hw
    simp only [scatter, List.getElem_mapIdx, Prod.mk.injEq, Nat.zero_add] at hget
    obtain ⟨rfl, rfl⟩ := hget
    refine ⟨by omega, List.getElem?_eq_getElem _⟩
  obtain ⟨-, hbytes⟩ := h.spec (by
    rintro ⟨j, b⟩ hw
    obtain ⟨hj, -⟩ := hpending j b hw
    show j < (image old).length
    rw [length_image, ← hsize]
    omega)
  rcases hbytes i with hb | ⟨b, hb, hnew⟩
  · exact .inl hb
  · obtain ⟨hik, hz⟩ := hpending i b hb
    exact .inr ⟨hik, by rw [hnew, getElem?_image_body new hi, hz]⟩

/-- Any one byte written before the barrier may be the only one that is kept. -/
theorem leaves_one {old : Bytes} {new : Array UInt32} {k i : Nat} {b : UInt8}
    (hk : k ≤ byteSize new.size) (hik : i < k) (hi : i < old.length)
    (hb : (word 0 ++ body new)[i]? = some b) :
    (moment old new k).Leaves (old.set i b) := by
  rw [moment_before old hk]
  refine ⟨_, [(i, b)], List.Perm.refl _, ?_, ?_⟩
  · rw [List.singleton_sublist, List.mem_take_iff_getElem]
    obtain ⟨hlt, hget⟩ := List.getElem?_eq_some_iff.mp hb
    refine ⟨i, by rw [length_scatter]; omega, ?_⟩
    simp only [scatter, List.getElem_mapIdx, hget, Nat.zero_add]
  · exact (overlay_byte hi b).symm

/-- Of two bytes in which the new index differs, the one that is written may be kept without the
other: a store is then loaded that mixes old and new bytes. -/
theorem mix_of_two {old new : Array UInt32} {k i j : Nat} (hsize : new.size = old.size)
    (hmax : old.size ≤ UInt32.size) (hk : k ≤ byteSize new.size) (hik : i < k)
    (hi : DifferAt old new i) (hj : DifferAt old new j) (hij : i ≠ j) :
    ∃ content, (moment (image old) new k).Leaves content ∧ content ≠ image old ∧
      content ≠ image new ∧ ¬Rejected content := by
  have hnew : i < (image new).length := by
    rw [length_image]
    omega
  have hold : i < (image old).length := by
    rw [length_image, ← hsize]
    omega
  have hbyte : (word 0 ++ body new)[i]? = some (image new)[i] := by
    rw [← getElem?_image_body new hi.body, List.getElem?_eq_getElem hnew]
  refine ⟨(image old).set i (image new)[i], leaves_one hk hik hold hbyte, ?_, ?_, ?_⟩
  · intro h
    apply hi
    rw [← h, List.getElem?_set_self hold, List.getElem?_eq_getElem hnew]
  · intro h
    apply hj
    rw [← h, List.getElem?_set_ne hij]
  -- The byte lies behind the magic word of the old index, which is still there.
  · have hhead : ((image old).set i (image new)[i]).take headerSize = word magic := by
      rw [List.take_set_of_le hi.body, take_image]
    obtain ⟨mixed, hmixed, hcount⟩ := exists_image_iff.mpr
      ⟨hhead, by rw [List.length_set, length_image]⟩
    rw [hmixed]
    exact not_rejected_image (by rw [hcount]; exact hmax)

/-- While at most one byte makes the difference before the barrier, only the old and the new index
can be loaded. -/
theorem safe_before {old new : Array UInt32} {k : Nat} {content : Bytes}
    (hsize : new.size = old.size) (hk : k ≤ byteSize new.size)
    (hone : ∀ i j, i < k → DifferAt old new i → DifferAt old new j → i = j)
    (h : (moment (image old) new k).Leaves content) :
    content = image old ∨ content = image new ∨ Rejected content := by
  by_cases hc : Current content
  · have hbytes := h.before hsize hk
    by_cases hsame : ∀ i, headerSize ≤ i → content[i]? = (image old)[i]?
    · exact .inl (eq_image_of_current hc hsame)
    · simp only [Classical.not_forall] at hsame
      obtain ⟨i, hi, hne⟩ := hsame
      obtain ⟨hik, hnew⟩ := (hbytes i hi).resolve_left hne
      have hdiffer : DifferAt old new i := fun heq => hne (hnew.trans heq.symm)
      -- No other byte differs, so the bytes that are old are those of the new index as well.
      refine .inr (.inl (eq_image_of_current hc fun j hj => ?_))
      rcases hbytes j hj with hold | ⟨-, hnew'⟩
      · by_cases hij : DifferAt old new j
        · rw [← hone i j hik hdiffer hij]
          exact hnew
        · exact hold.trans (Classical.not_not.mp hij)
      · exact hnew'
  · exact .inr (.inr (rejected_of_not_current hc))

/-- Power is lost without harm exactly from the barrier on, and before it while no byte is written
in which the new index differs from the old one, unless it is the only such byte of the two. -/
theorem power_loss_harmless_iff {old new : Array UInt32} (hsize : new.size = old.size)
    (hmax : old.size ≤ UInt32.size) (k : Nat) :
    (∀ content, (moment (image old) new k).Leaves content →
      content = image old ∨ content = image new ∨ Rejected content) ↔
      (byteSize new.size < k ∨
        ∀ i j, i < k → DifferAt old new i → DifferAt old new j → i = j) := by
  constructor
  · intro hsafe
    by_cases hk : byteSize new.size < k
    · exact .inl hk
    refine .inr fun i j hik hi hj => Classical.byContradiction fun hij => ?_
    obtain ⟨content, hleaves, hold, hnew, hload⟩ :=
      mix_of_two hsize hmax (Nat.le_of_not_lt hk) hik hi hj hij
    rcases hsafe content hleaves with h | h | h
    · exact hold h
    · exact hnew h
    · exact hload h
  · rintro (hk | hone) content h
    · exact .inr (safe_after (by rw [length_image, hsize]) hk h)
    · by_cases hk : byteSize new.size < k
      · exact .inr (safe_after (by rw [length_image, hsize]) hk h)
      · exact safe_before hsize (Nat.le_of_not_lt hk) hone h

/-- One record is written over another that differs in its low byte only: power may be lost before
the barrier, and the new index be there already, but nothing else. -/
theorem power_loss_one_byte :
    (moment (image #[1]) #[2] 8).Leaves (image #[2]) ∧
      ∀ content, (moment (image #[1]) #[2] 8).Leaves content →
        content = image #[1] ∨ content = image #[2] ∨ Rejected content := by
  have hlow : ∀ i, DifferAt #[1] #[2] i → i = 4 := by
    intro i hi
    by_cases hlt : i < 8
    · have h : ∀ i, i < 8 → (image #[1])[i]? ≠ (image #[2])[i]? → i = 4 := by decide
      exact h i hlt hi
    · have hend (records : Array UInt32) (h : records.size = 1) : (image records)[i]? = none := by
        rw [List.getElem?_eq_none]
        rw [length_image, h]
        exact Nat.le_of_not_lt hlt
      exact absurd ((hend #[1] rfl).trans (hend #[2] rfl).symm) hi
  constructor
  · exact leaves_one (i := 4) (b := 2) (by decide) (by decide) (by decide) rfl
  · refine (power_loss_harmless_iff (by decide) (by decide) 8).mpr (.inr fun i j _ hi hj => ?_)
    rw [hlow i hi, hlow j hj]

/-- Two records are written over two others, and of the first byte written behind the header
nothing else is kept: the store that is then loaded has one new record and one old one. -/
theorem power_loss_mixes :
    (moment (image #[1, 2]) #[3, 4] 5).Leaves (image #[3, 2]) ∧
      image #[3, 2] ≠ image #[1, 2] ∧ image #[3, 2] ≠ image #[3, 4] ∧
      Store.load (soleFile (image #[3, 2])) "index" ⟨2, false⟩ =
        .ok (some ⟨"index", 0, #[3, 2], true⟩) := by
  refine ⟨⟨_, [(4, 3)], List.Perm.refl _, by decide, by decide⟩, by decide, by decide, ?_⟩
  exact Store.load_eq_some_iff.mpr
    ⟨rfl, by decide, 0, #[3, 2], openFile_soleFile _, rfl, rfl, rfl⟩

end Ridership.Index
