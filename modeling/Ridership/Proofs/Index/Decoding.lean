import Ridership.Store

/-!
# Which bytes are an index

The bytes of an index and its records determine each other. Bytes are accepted as an index of the
present format when they start with the magic word and go on with whole records; they are then the
image of exactly one list of records, and a store is loaded from them for a network with as many
edges.
-/

namespace Ridership.Index

variable {bytes : Bytes}

theorem word_ofWord (a b c d : UInt8) : word (ofWord a b c d) = [a, b, c, d] := by
  have ha := a.toNat_lt
  have hb := b.toNat_lt
  have hc := c.toNat_lt
  have hd := d.toNat_lt
  have hv : (ofWord a b c d).toNat =
      a.toNat + 256 * (b.toNat + 256 * (c.toNat + 256 * d.toNat)) := by
    simp only [ofWord, UInt32.toNat_ofNat']
    omega
  have ofNat_eq (n : Nat) (x : UInt8) (h : n % 256 = x.toNat) : UInt8.ofNat n = x := by
    apply UInt8.toNat_inj.mp
    rw [UInt8.toNat_ofNat']
    exact h
  simp only [word, hv]
  rw [ofNat_eq _ a (by omega), ofNat_eq _ b (by omega), ofNat_eq _ c (by omega),
    ofNat_eq _ d (by omega)]

theorem ofWord_eq_iff {a b c d : UInt8} {n : UInt32} :
    ofWord a b c d = n ↔ [a, b, c, d] = word n := by
  constructor
  · rintro rfl
    exact (word_ofWord a b c d).symm
  · intro h
    simp only [word, List.cons.injEq, and_true] at h
    obtain ⟨rfl, rfl, rfl, rfl⟩ := h
    exact ofWord_word n

theorem flatMap_appendWords (records : Array UInt32) (h : bytes.length % recordWidth = 0) :
    (appendWords records bytes).toList.flatMap word = records.toList.flatMap word ++ bytes := by
  fun_induction appendWords records bytes with
  | case1 records a b c d rest ih =>
    rw [ih (by simp only [List.length_cons, recordWidth] at h ⊢; omega)]
    simp [word_ofWord]
  | case2 rest records hshort =>
    have hnil : rest = [] := by
      rcases rest with _ | ⟨a, _ | ⟨b, _ | ⟨c, _ | ⟨d, rest⟩⟩⟩⟩
      · rfl
      · simp [recordWidth] at h
      · simp [recordWidth] at h
      · simp [recordWidth] at h
      · exact absurd rfl (hshort a b c d rest)
    simp [hnil]

theorem body_appendWords (h : bytes.length % recordWidth = 0) :
    body (appendWords #[] bytes) = bytes := by
  simpa [body] using flatMap_appendWords #[] h

/-- The bytes are an index of the present format. -/
def Current (bytes : Bytes) : Prop :=
  ∃ h, Header.read bytes bytes.length = .ok h ∧ h.isCurrent = true

/-- A header is read from a whole word that whole records follow. -/
theorem read_eq_ok_iff {h : Header} :
    Header.read bytes bytes.length = .ok h ↔
      ∃ a b c d rest, bytes = a :: b :: c :: d :: rest ∧ rest.length % recordWidth = 0 ∧
        h = ⟨ofWord a b c d, rest.length / recordWidth⟩ := by
  unfold Header.read
  constructor
  · intro hr
    split at hr
    · next a b c d rest =>
      have hlen : (a :: b :: c :: d :: rest).length - headerSize = rest.length := by
        simp [headerSize]
      rw [if_neg (by simp [headerSize]), hlen] at hr
      split at hr
      · next hwhole => exact ⟨a, b, c, d, rest, rfl, hwhole, (Except.ok.inj hr).symm⟩
      · cases hr
    · cases hr
  · rintro ⟨a, b, c, d, rest, rfl, hwhole, rfl⟩
    have hlen : (a :: b :: c :: d :: rest).length - headerSize = rest.length := by
      simp [headerSize]
    simp only [hlen]
    rw [if_neg (by simp [headerSize]), if_pos hwhole]

/-- An index of the present format is the image of its records. -/
theorem read_current_iff {n : Nat} :
    (∃ h, Header.read bytes bytes.length = .ok h ∧ h.isCurrent = true ∧ h.recordCount = n) ↔
      ∃ records : Array UInt32, bytes = image records ∧ records.size = n := by
  constructor
  · rintro ⟨h, hr, hc, rfl⟩
    obtain ⟨a, b, c, d, rest, rfl, hwhole, rfl⟩ := read_eq_ok_iff.mp hr
    have hword : [a, b, c, d] = word magic :=
      ofWord_eq_iff.mp (by simpa [Header.isCurrent] using hc)
    have hbody := body_appendWords hwhole
    refine ⟨appendWords #[] rest, ?_, ?_⟩
    · rw [image, hbody, ← hword]
      rfl
    · have hlen := length_body (appendWords #[] rest)
      rw [hbody] at hlen
      show _ = rest.length / recordWidth
      rw [hlen, Nat.mul_div_cancel _ (by decide)]
  · rintro ⟨records, rfl, rfl⟩
    refine ⟨⟨magic, records.size⟩, read_eq_ok_iff.mpr ?_, by simp [Header.isCurrent], rfl⟩
    refine ⟨_, _, _, _, body records, rfl, ?_, ?_⟩
    · rw [length_body, Nat.mul_mod_left]
    · rw [ofWord_word, length_body, Nat.mul_div_cancel _ (by decide)]

theorem current_iff : Current bytes ↔ ∃ records : Array UInt32, bytes = image records := by
  constructor
  · rintro ⟨h, hr, hc⟩
    obtain ⟨records, hb, _⟩ := read_current_iff.mp ⟨h, hr, hc, rfl⟩
    exact ⟨records, hb⟩
  · rintro ⟨records, hb⟩
    obtain ⟨h, hr, hc, _⟩ := read_current_iff.mpr ⟨records, hb, rfl⟩
    exact ⟨h, hr, hc⟩

theorem image_injective {r r' : Array UInt32} (h : image r = image r') : r = r' := by
  rw [← recordsOf_image r, h, recordsOf_image]

theorem take_image (records : Array UInt32) : (image records).take headerSize = word magic :=
  List.take_left' (length_word magic)

/-- The magic word and the right length are all that makes an index. -/
theorem exists_image_iff {n : Nat} :
    (∃ records : Array UInt32, bytes = image records ∧ records.size = n) ↔
      bytes.take headerSize = word magic ∧ bytes.length = byteSize n := by
  constructor
  · rintro ⟨records, rfl, rfl⟩
    exact ⟨take_image records, length_image records⟩
  · rintro ⟨hmagic, hlen⟩
    have hrest : (bytes.drop headerSize).length = n * recordWidth := by
      rw [List.length_drop, hlen, byteSize, Nat.add_sub_cancel_left]
    have hbody : body (appendWords #[] (bytes.drop headerSize)) = bytes.drop headerSize :=
      body_appendWords (by rw [hrest, Nat.mul_mod_left])
    refine ⟨appendWords #[] (bytes.drop headerSize), ?_, ?_⟩
    · rw [image, hbody, ← hmagic, List.take_append_drop]
    · have h := length_body (appendWords #[] (bytes.drop headerSize))
      rw [hbody, hrest] at h
      exact (Nat.eq_of_mul_eq_mul_right (by decide) h).symm

theorem not_current_of_take (h : bytes.take headerSize ≠ word magic) : ¬Current bytes := by
  rw [current_iff]
  rintro ⟨records, rfl⟩
  exact h (take_image records)

end Ridership.Index

namespace Ridership

/-- An index can be made for a base network with at most as many edges as there are edge numbers. -/
theorem Extent.admitted_eq_ok_iff {network : Extent} {n : Nat} :
    network.admitted = .ok n ↔
      network.contracted = false ∧ network.edgeCount ≤ UInt32.size ∧ network.edgeCount = n := by
  unfold Extent.admitted
  split
  · next hc => simp [hc]
  · next hc =>
    split
    · next hm => simp [Nat.not_le.mpr hm]
    · next hm => simp [hc, Nat.le_of_not_lt hm]

namespace Store

open Index (image)

variable {d : Disk} {path : String} {network : Extent}

/-- A store is loaded exactly from the image of as many records as the network has edges. -/
theorem load_eq_some_iff {s : Store} :
    load d path network = .ok (some s) ↔
      network.contracted = false ∧ network.edgeCount ≤ UInt32.size ∧
        ∃ id records, d.openFile path = .ok id ∧ d.content id = image records ∧
          records.size = network.edgeCount ∧ s = ⟨path, id, records, true⟩ := by
  unfold load
  constructor
  · intro h
    cases hn : network.admitted with
    | error f =>
      rw [hn] at h
      cases h
    | ok n =>
      obtain ⟨hbase, hmax, rfl⟩ := Extent.admitted_eq_ok_iff.mp hn
      rw [hn] at h
      refine ⟨hbase, hmax, ?_⟩
      simp only [bind, Except.bind, pure, Except.pure] at h
      split at h
      · cases h
      · cases h
      · next id ho =>
        split at h
        · cases h
        · next header hr =>
          split at h
          · cases h
          · next hc =>
            split at h
            · cases h
            · next hcount =>
              obtain ⟨records, hbytes, hsize⟩ := Index.read_current_iff.mp
                ⟨header, hr, by simpa using hc, by simpa using hcount⟩
              refine ⟨id, records, ho, hbytes, hsize, ?_⟩
              rw [hbytes, Index.recordsOf_image] at h
              exact (Option.some.inj (Except.ok.inj h)).symm
  · rintro ⟨hbase, hmax, id, records, ho, hbytes, hsize, rfl⟩
    obtain ⟨header, hr, hc, hcount⟩ := Index.read_current_iff.mpr ⟨records, rfl, hsize⟩
    rw [Extent.admitted_eq_ok_iff.mpr ⟨hbase, hmax, rfl⟩, ho]
    simp only [bind, Except.bind, pure, Except.pure, hbytes, hr, hc, hcount]
    simp [Index.recordsOf_image]

theorem load_ne_some {id : FileId} (ho : d.openFile path = .ok id)
    (hc : ¬Index.Current (d.content id)) (s : Store) : load d path network ≠ .ok (some s) := by
  intro h
  obtain ⟨_, _, id', records, ho', hbytes, _, _⟩ := load_eq_some_iff.mp h
  rw [ho] at ho'
  cases ho'
  exact hc (Index.current_iff.mpr ⟨records, hbytes⟩)

end Store

end Ridership
