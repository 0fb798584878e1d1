import Ridership.Proofs.Disk.Confined
import Ridership.Proofs.Index.Decoding

/-!
# Writing an index over another file

While an index is written the file first loses its magic word, and gets the new one with the last
bytes. So when the disk is full in between, the file holds its old content, the complete new one, or
no index. Only the two low bytes of the magic word differ from zero: a file that lacks just the two
high ones is already complete, although the writing of it failed.
-/

namespace Ridership

namespace Disk

variable {d : Disk} {id : FileId}

theorem overlay_zero (old new : Bytes) : overlay old 0 new = new ++ old.drop new.length := by
  simp [overlay]

theorem overlay_append {start : Bytes} {offset : Nat} (h : start.length = offset)
    (rest new : Bytes) :
    overlay (start ++ rest) offset new = start ++ new ++ rest.drop new.length := by
  subst h
  have hgap : start.length - (start ++ rest).length = 0 := by
    rw [List.length_append]
    omega
  rw [overlay, hgap, List.take_left, List.replicate_zero, List.append_nil,
    List.drop_append, List.drop_eq_nil_of_le (Nat.le_add_right _ _), List.nil_append,
    Nat.add_sub_cancel_left]

/-- Bytes that the allowance admits are written, and the allowance is less by them. -/
theorem write_fits (hid : id < d.contents.length) (offset : Nat) (bytes : Bytes)
    (h : ∀ b, d.allowance = some b → bytes.length ≤ b) :
    ∃ d', d.write id offset bytes = (d', .ok ()) ∧ Rewrites id d d' ∧
      d'.content id = overlay (d.content id) offset bytes ∧ d'.endurance = d.endurance ∧
      d'.allowance = d.allowance.map (· - bytes.length) := by
  have hfit : bytes.take (d.allowance.getD bytes.length) = bytes := by
    apply List.take_of_length_le
    cases ha : d.allowance with
    | none => exact Nat.le_refl _
    | some b => exact h b ha
  have hw : Rewrites id d (d.write id offset bytes).1 := rewrites_write
  refine ⟨(d.write id offset bytes).1, ?_, hw, ?_, ?_, ?_⟩
  · simp [write, hfit]
  · simp only [write, hfit]
    exact content_setContent_self d hid _
  · rfl
  · simp only [write, hfit]

theorem write_cut (hid : id < d.contents.length) (offset : Nat) {b : Nat} {bytes : Bytes}
    (hb : d.allowance = some b) (h : b < bytes.length) :
    ∃ d', d.write id offset bytes = (d', .error .noSpace) ∧
      d'.content id = overlay (d.content id) offset (bytes.take b) := by
  refine ⟨(d.write id offset bytes).1, ?_, ?_⟩
  · have hlen : (bytes.take b).length ≠ bytes.length := by
      rw [List.length_take]
      omega
    simp only [write, hb, Option.getD_some, if_neg hlen]
  · simp only [write, hb, Option.getD_some]
    exact content_setContent_self d hid _

/-- What was written without a failure was written completely. -/
theorem content_of_write (hid : id < d.contents.length) {offset : Nat} {bytes : Bytes} {d' : Disk}
    (h : d.write id offset bytes = (d', .ok ())) :
    d'.content id = overlay (d.content id) offset bytes := by
  obtain ⟨rfl, hr⟩ := Prod.mk.inj h
  split at hr
  · next hlen =>
    have hfit : bytes.take (d.allowance.getD bytes.length) = bytes :=
      (List.take_prefix _ _).eq_of_length hlen
    show (d.setContent id _).content id = _
    rw [content_setContent_self d hid, hfit]
  · cases hr

end Disk

namespace Index

open Disk (overlay Rewrites)

variable {d : Disk} {id : FileId}

/-- What a content becomes when an index is written over it. -/
def overwritten (old : Bytes) (records : Array UInt32) : Bytes :=
  image records ++ old.drop (byteSize records.size)

theorem overwritten_eq_image {old : Bytes} {records : Array UInt32}
    (h : old.length = byteSize records.size) : overwritten old records = image records := by
  rw [overwritten, ← h, List.drop_length, List.append_nil]

theorem word_zero : word 0 = [0, 0, 0, 0] := by decide

theorem word_magic : word magic = [209, 74, 0, 0] := by decide

theorem not_current_of_zero (rest : Bytes) : ¬Current (0 :: rest) := by
  rw [current_iff]
  rintro ⟨records, h⟩
  rw [image, word_magic] at h
  cases h

theorem overlay_records (rest records : Bytes) :
    overlay (word 0 ++ rest) headerSize records = word 0 ++ records ++ rest.drop records.length :=
  Disk.overlay_append (length_word 0) rest records

/-- The steps up to the barrier clear the magic word and write the records. -/
theorem perform_records (hid : id < d.contents.length) (hsync : d.endurance ≠ some 0)
    (records : Array UInt32) (last : List Step)
    (h : ∀ b, d.allowance = some b → byteSize records.size ≤ b) :
    ∃ d', perform d id (steps records ++ last) =
        perform d' id (.write 0 (word magic) :: last) ∧
      Rewrites id d d' ∧
      d'.content id = word 0 ++ body records ++ (d.content id).drop (byteSize records.size) ∧
      d'.allowance = d.allowance.map (· - byteSize records.size) ∧
      d'.endurance = d.endurance.map (· - 1) := by
  have hsize : byteSize records.size = (word 0).length + (body records).length := by
    rw [length_word, length_body]
    rfl
  obtain ⟨d₁, hw₁, hr₁, hc₁, he₁, ha₁⟩ := Disk.write_fits hid 0 (word 0)
    (fun b hb => by have := h b hb; omega)
  obtain ⟨d₂, hw₂, hr₂, hc₂, he₂, ha₂⟩ := Disk.write_fits
    (by rw [hr₁.length_eq]; exact hid) headerSize (body records) (by
      intro b hb
      rw [ha₁] at hb
      obtain ⟨b₀, hb₀, rfl⟩ := Option.map_eq_some_iff.mp hb
      have := h b₀ hb₀
      omega)
  obtain ⟨d₃, hs₃, hr₃, hc₃, ha₃, he₃⟩ := Disk.wear_succeeds (d := d₂) id
    (by rwa [he₂, he₁])
  refine ⟨d₃, ?_, (hr₁.trans hr₂).trans hr₃, ?_, ?_, ?_⟩
  · simp only [steps, List.cons_append, List.nil_append]
    rw [perform, hw₁]
    show perform d₁ id _ = _
    rw [perform, hw₂]
    show perform d₂ id _ = _
    rw [perform, Disk.sync, hs₃]
  · rw [hc₃, hc₂, hc₁, Disk.overlay_zero, overlay_records,
      List.drop_drop, ← hsize]
  · rw [ha₃, ha₂, ha₁, Option.map_map, hsize]
    congr 1
    funext b
    exact Nat.sub_sub b _ _
  · rw [he₃, he₂, he₁]

theorem overlay_magic (records : Array UInt32) (rest : Bytes) :
    overlay (word 0 ++ body records ++ rest) 0 (word magic) = image records ++ rest := by
  rw [Disk.overlay_zero, List.append_assoc, image, List.append_assoc]
  congr 1

/-- An index is written completely where the disk admits it. -/
theorem perform_complete (hid : id < d.contents.length) (hsync : d.endurance ≠ some 0)
    (records : Array UInt32) (last : List Step)
    (h : ∀ b, d.allowance = some b → byteSize records.size + headerSize ≤ b) :
    ∃ d', perform d id (steps records ++ last) = perform d' id last ∧ Rewrites id d d' ∧
      d'.content id = overwritten (d.content id) records ∧
      d'.endurance = d.endurance.map (· - 1) := by
  obtain ⟨d₁, hp₁, hr₁, hc₁, ha₁, he₁⟩ := perform_records hid hsync records last
    (fun b hb => by have := h b hb; omega)
  obtain ⟨d₂, hw₂, hr₂, hc₂, he₂, -⟩ := Disk.write_fits
    (by rw [hr₁.length_eq]; exact hid) 0 (word magic) (by
      intro b hb
      rw [ha₁] at hb
      obtain ⟨b₀, hb₀, rfl⟩ := Option.map_eq_some_iff.mp hb
      have := h b₀ hb₀
      show headerSize ≤ _
      omega)
  refine ⟨d₂, ?_, hr₁.trans hr₂, ?_, he₂.trans he₁⟩
  · rw [hp₁, perform, hw₂]
  · rw [hc₂, hc₁, overlay_magic]
    rfl

/-- An index is saved where the disk admits its bytes and the two requests to make it durable. -/
theorem save_complete (hid : id < d.contents.length) (records : Array UInt32)
    (hd : d.Affords (byteSize records.size + headerSize) 2) :
    ∃ d', save d id records = (d', .ok ()) ∧ Rewrites id d d' ∧
      d'.content id = overwritten (d.content id) records := by
  obtain ⟨d₁, hp₁, hr₁, hc₁, he₁⟩ := perform_complete hid hd.ne_zero records [.barrier] hd.space
  have hsync : d₁.endurance ≠ some 0 := by
    rw [he₁]
    intro h
    obtain ⟨k, hk, hzero⟩ := Option.map_eq_some_iff.mp h
    have := hd.strength k hk
    omega
  obtain ⟨d₂, hs₂, hr₂, hc₂, -⟩ := Disk.wear_succeeds id hsync
  refine ⟨d₂, ?_, hr₁.trans hr₂, hc₂.trans hc₁⟩
  rw [save, savingSteps, hp₁, perform, Disk.sync, hs₂]
  rfl

/-- What a step makes of a content when it does not fail. -/
def Step.effect (content : Bytes) : Step → Bytes
  | .write offset bytes => overlay content offset bytes
  | .barrier => content

theorem content_of_perform (hid : id < d.contents.length) {steps : List Step} {d' : Disk}
    (h : perform d id steps = (d', .ok ())) :
    d'.content id = steps.foldl Step.effect (d.content id) := by
  induction steps generalizing d with
  | nil =>
    cases h
    rfl
  | cons step rest ih =>
    cases step with
    | barrier =>
      have hr : Rewrites id d d.sync.1 := Disk.rewrites_wear
      have hc : d.sync.1.content id = d.content id := Disk.content_wear id
      unfold perform at h
      split at h
      · next d₁ hsync =>
        rw [hsync] at hr hc
        rw [ih (hr.length_eq ▸ hid) h, hc, List.foldl_cons, Step.effect]
      · cases h
    | write offset bytes =>
      have hr : Rewrites id d (d.write id offset bytes).1 := Disk.rewrites_write
      unfold perform at h
      split at h
      · next d₁ hwrite =>
        rw [hwrite] at hr
        rw [ih (hr.length_eq ▸ hid) h, Disk.content_of_write hid hwrite, List.foldl_cons,
          Step.effect]
      · cases h

/-- An index that was saved without a failure is complete, on whatever disk. -/
theorem content_of_save (hid : id < d.contents.length) {records : Array UInt32} {d' : Disk}
    (h : save d id records = (d', .ok ())) :
    d'.content id = overwritten (d.content id) records := by
  have hsize : byteSize records.size = (word 0).length + (body records).length := by
    rw [length_word, length_body]
    rfl
  have hcleared : overlay (d.content id) 0 (word 0) =
      word 0 ++ (d.content id).drop (word 0).length := Disk.overlay_zero _ _
  rw [content_of_perform hid h]
  simp only [savingSteps, steps, List.cons_append, List.nil_append, List.foldl_cons,
    List.foldl_nil, Step.effect]
  rw [hcleared, overlay_records, List.drop_drop, ← hsize, overlay_magic, overwritten]

/-- Where the magic word is cut, the file is complete if only zeros are missing, and no index
otherwise. -/
theorem overlay_magic_cut {b : Nat} (hb : b < headerSize) (records : Array UInt32)
    (rest : Bytes) :
    (b < 2 → ¬Current (overlay (word 0 ++ body records ++ rest) 0 ((word magic).take b))) ∧
      (2 ≤ b → overlay (word 0 ++ body records ++ rest) 0 ((word magic).take b) =
        image records ++ rest) := by
  rw [Disk.overlay_zero, image, List.append_assoc, List.append_assoc, word_zero, word_magic]
  have hcases : b = 0 ∨ b = 1 ∨ b = 2 ∨ b = 3 := by
    unfold headerSize at hb
    omega
  rcases hcases with rfl | rfl | rfl | rfl
  · exact ⟨fun _ => not_current_of_zero _, by omega⟩
  · refine ⟨fun _ => ?_, by omega⟩
    apply not_current_of_take
    rw [word_magic]
    simp [headerSize]
  · exact ⟨by omega, fun _ => rfl⟩
  · exact ⟨by omega, fun _ => rfl⟩

/-- A writing cut before the barrier has cleared the first byte, or has not begun. -/
theorem write_cut_records {b : Nat} (hid : id < d.contents.length) (hb : d.allowance = some b)
    (records : Array UInt32) (h : b < byteSize records.size) :
    ∃ d', write d id records = (d', .error .noSpace) ∧
      (b = 0 ∧ d'.content id = d.content id ∨ 0 < b ∧ ¬Current (d'.content id)) := by
  by_cases hhead : b < (word 0).length
  · obtain ⟨d₁, hw₁, hc₁⟩ := Disk.write_cut hid 0 hb hhead
    refine ⟨d₁, ?_, ?_⟩
    · rw [write, steps, perform, hw₁]
    rw [hc₁, Disk.overlay_zero, word_zero]
    cases b with
    | zero => exact .inl ⟨rfl, by simp⟩
    | succ b => exact .inr ⟨Nat.succ_pos b, not_current_of_zero _⟩
  · obtain ⟨d₁, hw₁, hr₁, hc₁, he₁, ha₁⟩ := Disk.write_fits hid 0 (word 0)
      (fun b' hb' => by rw [hb] at hb'; cases hb'; omega)
    have hb₁ : d₁.allowance = some (b - (word 0).length) := by
      rw [ha₁, hb]
      rfl
    have hbody : b - (word 0).length < (body records).length := by
      rw [length_body]
      have hw : (word 0).length = headerSize := rfl
      unfold byteSize at h
      omega
    obtain ⟨d₂, hw₂, hc₂⟩ := Disk.write_cut
      (by rw [hr₁.length_eq]; exact hid) headerSize hb₁ hbody
    refine ⟨d₂, ?_, .inr ⟨?_, ?_⟩⟩
    · rw [write, steps, perform, hw₁]
      show perform d₁ id _ = _
      rw [perform, hw₂]
    · have hw : (word 0).length = headerSize := rfl
      unfold headerSize at hw
      omega
    · rw [hc₂, hc₁, Disk.overlay_zero, overlay_records, word_zero]
      exact not_current_of_zero _

/-- A writing cut in the magic word leaves the complete content if only zeros are missing. -/
theorem write_cut_magic {b : Nat} (hid : id < d.contents.length) (hb : d.allowance = some b)
    (hsync : d.endurance ≠ some 0) (records : Array UInt32)
    (hlow : byteSize records.size ≤ b) (hhigh : b < byteSize records.size + headerSize) :
    ∃ d', write d id records = (d', .error .noSpace) ∧
      (b < byteSize records.size + 2 → ¬Current (d'.content id)) ∧
      (byteSize records.size + 2 ≤ b →
        d'.content id = overwritten (d.content id) records) := by
  obtain ⟨d₁, hp₁, hr₁, hc₁, ha₁, -⟩ := perform_records hid hsync records []
    (fun b' hb' => by rw [hb] at hb'; cases hb'; exact hlow)
  have hb₁ : d₁.allowance = some (b - byteSize records.size) := by
    rw [ha₁, hb]
    rfl
  have hshort : b - byteSize records.size < headerSize := by omega
  obtain ⟨d₂, hw₂, hc₂⟩ := Disk.write_cut
    (by rw [hr₁.length_eq]; exact hid) 0 hb₁ (show _ < (word magic).length from hshort)
  have hcut := overlay_magic_cut hshort records ((d.content id).drop (byteSize records.size))
  rw [hc₁] at hc₂
  rw [← hc₂] at hcut
  refine ⟨d₂, ?_, fun h => hcut.1 (by omega), fun h => hcut.2 (by omega)⟩
  rw [write, ← List.append_nil (steps records), hp₁, perform, hw₂]

/-- An index is written if and only if the disk admits its bytes and the header once more. A
writing that fails leaves the old content before the first byte, the complete new content after all
but the zeros of the magic word, and no index in between. -/
theorem write_within_allowance {b : Nat} (hid : id < d.contents.length)
    (hb : d.allowance = some b) (hsync : d.endurance ≠ some 0) (records : Array UInt32) :
    ((write d id records).2 = .ok () ↔ byteSize records.size + headerSize ≤ b) ∧
      ((write d id records).2 = .ok () →
        (write d id records).1.content id = overwritten (d.content id) records) ∧
      (∀ f, (write d id records).2 = .error f →
        (b = 0 ∧ (write d id records).1.content id = d.content id) ∨
        (0 < b ∧ b < byteSize records.size + 2 ∧
          ¬Current ((write d id records).1.content id)) ∨
        (byteSize records.size + 2 ≤ b ∧
          (write d id records).1.content id = overwritten (d.content id) records)) := by
  have hpos : 2 < byteSize records.size := by
    unfold byteSize headerSize
    omega
  -- The allowance ends behind the magic word, inside it, or before the barrier.
  by_cases hfull : byteSize records.size + headerSize ≤ b
  · obtain ⟨d', hp, -, hc, -⟩ := perform_complete hid hsync records []
      (fun b' hb' => by rw [hb] at hb'; cases hb'; exact hfull)
    have hw : write d id records = (d', .ok ()) := by
      rw [write, ← List.append_nil (steps records), hp, perform]
    rw [hw]
    exact ⟨⟨fun _ => hfull, fun _ => rfl⟩, fun _ => hc, nofun⟩
  · by_cases hrecords : byteSize records.size ≤ b
    · obtain ⟨d', hw, hno, hdone⟩ := write_cut_magic hid hb hsync records hrecords
        (Nat.lt_of_not_le hfull)
      rw [hw]
      refine ⟨⟨nofun, fun h => absurd h hfull⟩, nofun, fun f _ => .inr ?_⟩
      by_cases hlow : b < byteSize records.size + 2
      · exact .inl ⟨by omega, hlow, hno hlow⟩
      · exact .inr ⟨Nat.le_of_not_lt hlow, hdone (Nat.le_of_not_lt hlow)⟩
    · obtain ⟨d', hw, hcut⟩ := write_cut_records hid hb records (Nat.lt_of_not_le hrecords)
      rw [hw]
      refine ⟨⟨nofun, fun h => absurd h hfull⟩, nofun, fun f _ => ?_⟩
      rcases hcut with h | ⟨hb0, hno⟩
      · exact .inl h
      · exact .inr (.inl ⟨hb0, by omega, hno⟩)

def soleFile (content : Bytes) : Disk where
  nodes := [(["index"], .file 0)]
  contents := [content]
  files_exist := by simp

theorem locate_soleFile (content : Bytes) :
    (soleFile content).locate "index" = .ok (.file ["index"] 0) :=
  Disk.locate_of_name (by decide) (by decide) ⟨by decide, by decide, by decide⟩ rfl

/-- With room for all but the two high bytes of the magic word the writing fails, and yet the index
is complete. -/
theorem write_fails_complete :
    (write { soleFile (image #[7]) with allowance := some 10 } 0 #[9]).2 = .error .noSpace ∧
      (write { soleFile (image #[7]) with allowance := some 10 } 0 #[9]).1.content 0 =
        image #[9] := by
  have hid : 0 < { soleFile (image #[7]) with allowance := some 10 }.contents.length := by decide
  have h := write_within_allowance hid rfl nofun #[9]
  refine ⟨rfl, ?_⟩
  rcases h.2.2 .noSpace rfl with ⟨h, _⟩ | ⟨_, h, _⟩ | ⟨_, h⟩
  · cases h
  · exact absurd h (by decide)
  · exact h

end Index

end Ridership
