import Ridership.Proofs.Index.Overwriting

/-!
# Creating a store

A store is created for the networks that an index can be made for, with a file of zeros that is no
index. Where it cannot be created, either nothing was done or an empty file is left, which is no
index either.
-/

namespace Ridership

open Disk (Made)

variable {d d' : Disk} {path : String} {network : Extent} {n : Nat}

namespace Index

theorem not_current_replicate (n : Nat) : ¬Current (List.replicate n 0) := by
  cases n with
  | zero =>
    rw [current_iff]
    rintro ⟨records, h⟩
    cases h
  | succ n => exact not_current_of_zero _

end Index

/-- No index can be made for a contracted view, or for more edges than there are edge numbers. -/
theorem Extent.admitted_error (h : network.contracted = true ∨ UInt32.size < network.edgeCount) :
    ∃ c, network.admitted = .error (.configuration c) := by
  unfold Extent.admitted
  by_cases hc : network.contracted = true
  · exact ⟨_, if_pos hc⟩
  · exact ⟨_, by rw [if_neg hc, if_pos (h.resolve_left hc)]⟩

namespace Store

/-- What becomes of the request for a new store. -/
inductive Created (d : Disk) (path : String) (network : Extent) :
    Disk × Except Failure Store → Prop
  | refused {f : Failure} (h : network.admitted = .error f) : Created d path network (d, .error f)
  | unopened {f : Disk.Fault} : Created d path network (d, .error (.io path (.disk f)))
  | unsized {d' : Disk} {p : Disk.Place} {id : FileId} {f : Disk.Fault} (made : Made path p id d d')
      (empty : d'.content id = []) : Created d path network (d', .error (.io path (.disk f)))
  | created {d' : Disk} {p : Disk.Place} {id : FileId} {n : Nat}
      (admitted : network.admitted = .ok n) (made : Made path p id d d')
      (zeros : d'.content id = List.replicate (Index.byteSize n) 0) :
      Created d path network (d', .ok ⟨path, id, Array.replicate n 0, false⟩)

theorem create_created (d : Disk) (path : String) (network : Extent) :
    Created d path network (create d path network) := by
  unfold create
  cases hn : network.admitted with
  | error f => exact .refused hn
  | ok n =>
    cases hc : d.create path with
    | error f => exact .unopened
    | ok made =>
      obtain ⟨d₁, id⟩ := made
      obtain ⟨p, hmade, hempty⟩ := Disk.made_of_create hc
      have hr : Disk.Rewrites id d₁ (d₁.setLength id (Index.byteSize n)).1 :=
        Disk.rewrites_setLength
      cases hs : d₁.setLength id (Index.byteSize n) with
      | mk d₂ r =>
        rw [hs] at hr
        simp only [hs]
        rcases Disk.setLength_cases hmade.lt_length hs with ⟨f, rfl, hkeep⟩ | ⟨rfl, hsized⟩
        · exact .unsized (hmade.rewrites hr) (hkeep.trans hempty)
        · refine .created hn (hmade.rewrites hr) ?_
          rw [hsized, hempty]
          simp [Disk.resize]

/-- A store of zeros is created where the disk can set the length of a file. -/
theorem create_affords {bytes requests : Nat} (hd : d.Affords bytes (requests + 1))
    (hn : network.admitted = .ok n) {opened : Disk × FileId} (hc : d.create path = .ok opened) :
    ∃ d' store p, create d path network = (d', .ok store) ∧ store.readOnly = false ∧
      store.records = Array.replicate n 0 ∧ Made path p store.file d d' ∧
      d'.content store.file = List.replicate (Index.byteSize n) 0 ∧ d'.Affords bytes requests := by
  obtain ⟨d₁, id⟩ := opened
  obtain ⟨p, hmade, hempty⟩ := Disk.made_of_create hc
  obtain ⟨d₂, hset, hr, hsized, hd₂⟩ := (hd.create hc).setLength hmade.lt_length (Index.byteSize n)
  have hcreate : create d path network = (d₂, .ok ⟨path, id, Array.replicate n 0, false⟩) := by
    simp only [create, hn, hc, hset]
  refine ⟨_, _, p, hcreate, rfl, rfl, hmade.rewrites hr, ?_, hd₂⟩
  rw [hsized, hempty]
  simp [Disk.resize]

/-- Over the only file of a disk a store is created for any network that is not too large. -/
theorem create_soleFile (content : Bytes) (hmax : n ≤ UInt32.size) :
    create (Index.soleFile content) "index" ⟨n, false⟩ =
      (Index.soleFile (List.replicate (Index.byteSize n) 0),
        .ok ⟨"index", 0, Array.replicate n 0, false⟩) := by
  have hadmitted : Extent.admitted ⟨n, false⟩ = .ok n :=
    Extent.admitted_eq_ok_iff.mpr ⟨rfl, hmax, rfl⟩
  have hopened : (Index.soleFile content).create "index" = .ok (Index.soleFile [], 0) := by
    rw [Disk.create, Index.locate_soleFile]
    rfl
  have hsized : (Index.soleFile []).setLength 0 (Index.byteSize n) =
      (Index.soleFile (List.replicate (Index.byteSize n) 0), .ok ()) := by
    simp [Disk.setLength, Disk.wear, Index.soleFile, Disk.setContent, Disk.resize, Disk.content]
  simp only [create, hadmitted, hopened, hsized]

end Store

end Ridership
