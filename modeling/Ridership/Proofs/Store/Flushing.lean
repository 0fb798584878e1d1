import Ridership.Proofs.Index.Overwriting

/-!
# Flushing a store

A store that was created is flushed over whatever its file holds. The records take the place of the
first bytes, and what the file has behind them stays.
-/

namespace Ridership.Store

variable {s : Store} {d : Disk}

theorem rewrites_flush (s : Store) (d : Disk) : Disk.Rewrites s.file d (s.flush d).1 := by
  unfold flush
  split
  · exact .refl
  · exact Disk.rewrites_perform _

/-- A store that was flushed without a failure has all its records in its file. -/
theorem content_of_flush (hid : s.file < d.contents.length) {d' : Disk}
    (h : s.flush d = (d', .ok ())) :
    d'.content s.file = Index.overwritten (d.content s.file) s.records := by
  unfold flush at h
  split at h
  · cases h
  · rcases hsave : Index.save d s.file s.records with ⟨d₁, f | ⟨⟩⟩
    · rw [hsave] at h
      cases h
    · rw [hsave] at h
      cases h
      exact Index.content_of_save hid hsave

/-- A store is flushed where the disk admits the bytes of its index and the header once more. -/
theorem flush_overwrites (hw : s.readOnly = false) (hid : s.file < d.contents.length)
    (hd : d.Affords (Index.byteSize s.records.size + Index.headerSize) 2) :
    ∃ d', s.flush d = (d', .ok ()) ∧ Disk.Rewrites s.file d d' ∧
      d'.content s.file = Index.overwritten (d.content s.file) s.records := by
  obtain ⟨d', hsave, hr, hc⟩ := Index.save_complete hid s.records hd
  refine ⟨d', ?_, hr, hc⟩
  unfold flush
  rw [if_neg (by simp [hw]), hsave]
  rfl

/-- Over a file of its own size a store leaves the image of its records. -/
theorem flush_image (hw : s.readOnly = false) (hid : s.file < d.contents.length)
    (hlen : (d.content s.file).length = Index.byteSize s.records.size)
    (hd : d.Affords (Index.byteSize s.records.size + Index.headerSize) 2) :
    ∃ d', s.flush d = (d', .ok ()) ∧ Disk.Rewrites s.file d d' ∧
      d'.content s.file = Index.image s.records := by
  obtain ⟨d', hflush, hr, hc⟩ := flush_overwrites hw hid hd
  refine ⟨d', hflush, hr, ?_⟩
  rw [hc, Index.overwritten_eq_image hlen]

end Ridership.Store
