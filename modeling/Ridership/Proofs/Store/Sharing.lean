import Ridership.Proofs.Store.Flushing
import Ridership.Proofs.Store.History

/-!
# Several stores on one path

Stores that were created on one path write to the same file, and each flushes its own records
whatever the others did. So a file holds layers: every flush lays its records over those of the
flushes before it, and longer ones show behind shorter ones. Creating a store empties the file also
for the stores that were created before, and they flush into it all the same.
-/

namespace Ridership

/-! ## Layers of records -/

namespace Index

/-- Records laid over older ones. -/
def lay (old records : Array UInt32) : Array UInt32 :=
  records ++ old.extract records.size old.size

/-- The record of the last flush that has one for this edge, or zero. -/
def topmost (flushes : List (Array UInt32)) (i : Nat) : UInt32 :=
  (flushes.reverse.findSome? (·[i]?)).getD 0

/-- The larger one of an edge count and the largest of some numbers of records. -/
def extentOf (edgeCount : Nat) (flushes : List (Array UInt32)) : Nat :=
  (flushes.map Array.size).foldl max edgeCount

variable {old records : Array UInt32} {flushes : List (Array UInt32)}

theorem size_lay (old records : Array UInt32) :
    (lay old records).size = max old.size records.size := by
  simp only [lay, Array.size_append, Array.size_extract]
  omega

theorem getElem?_lay (old records : Array UInt32) (i : Nat) :
    (lay old records)[i]? = if i < records.size then records[i]? else old[i]? := by
  unfold lay
  by_cases h : i < records.size
  · rw [if_pos h, Array.getElem?_append_left h]
  · have hge : records.size ≤ i := Nat.le_of_not_lt h
    rw [if_neg h, Array.getElem?_append_right hge, Array.getElem?_extract]
    by_cases hi : i < old.size
    · rw [if_pos (by omega), Nat.add_sub_of_le hge]
    · rw [if_neg (by omega), Array.getElem?_eq_none (Nat.le_of_not_lt hi)]

theorem size_foldl_lay (old : Array UInt32) (flushes : List (Array UInt32)) :
    (flushes.foldl lay old).size = extentOf old.size flushes := by
  induction flushes generalizing old with
  | nil => rfl
  | cons records rest ih =>
    rw [List.foldl_cons, ih, size_lay]
    rfl

theorem getElem?_foldl_lay (old : Array UInt32) (flushes : List (Array UInt32)) (i : Nat) :
    ((flushes.foldl lay old)[i]?).getD 0 =
      (flushes.reverse.findSome? (·[i]?)).getD (old[i]?.getD 0) := by
  induction flushes generalizing old with
  | nil => rfl
  | cons records rest ih =>
    rw [List.foldl_cons, ih, getElem?_lay, List.reverse_cons, List.findSome?_append]
    cases rest.reverse.findSome? (·[i]?) with
    | some n => rfl
    | none =>
      by_cases h : i < records.size
      · simp [h]
      · simp [h]

theorem drop_flatMap_word (l : List UInt32) (k : Nat) :
    (l.flatMap word).drop (k * recordWidth) = (l.drop k).flatMap word := by
  induction k generalizing l with
  | zero => simp
  | succ k ih =>
    cases l with
    | nil => simp
    | cons n rest =>
      rw [List.flatMap_cons, Nat.succ_mul, Nat.add_comm, ← List.drop_drop,
        List.drop_left' (length_word n), ih, List.drop_succ_cons]

/-- Writing an index over another one lays its records over the others. -/
theorem overwritten_layer (first : UInt32) (old records : Array UInt32) :
    overwritten (word first ++ body old) records = image (lay old records) := by
  have hlist : (old.extract records.size old.size).toList = old.toList.drop records.size := by
    simp [List.take_of_length_le]
  have hrest : (word first ++ body old).drop (byteSize records.size) =
      body (old.extract records.size old.size) := by
    have hhead : (word first ++ body old).drop headerSize = body old :=
      List.drop_left' (length_word first)
    rw [byteSize, ← List.drop_drop, hhead, body, drop_flatMap_word, body, hlist]
  rw [overwritten, hrest, image, image, lay, List.append_assoc]
  simp [body]

theorem foldl_overwritten (first : UInt32) (old : Array UInt32) (h : flushes ≠ []) :
    flushes.foldl overwritten (word first ++ body old) = image (flushes.foldl lay old) := by
  induction flushes generalizing first old with
  | nil => exact absurd rfl h
  | cons records rest ih =>
    rw [List.foldl_cons, List.foldl_cons, overwritten_layer]
    cases rest with
    | nil => rfl
    | cons next more => exact ih magic (lay old records) (by simp)

theorem replicate_byteSize (n : Nat) :
    List.replicate (byteSize n) 0 = word 0 ++ body (Array.replicate n 0) := by
  have hbody : (List.replicate n 0).flatMap word = List.replicate (n * recordWidth) 0 := by
    induction n with
    | zero => rfl
    | succ n ih =>
      rw [List.replicate_succ, List.flatMap_cons, ih, word_zero, Nat.succ_mul, Nat.add_comm,
        ← List.replicate_append_replicate]
      rfl
  rw [body, Array.toList_replicate, hbody, byteSize, ← List.replicate_append_replicate]
  rfl

end Index

/-! ## A path and its stores -/

open Index (overwritten lay topmost extentOf)

/-- A disk and the stores that were created on a path, in this order. A closed store is gone. -/
structure Desk where
  disk : Disk
  stores : List (Option Store) := []

namespace Desk

/-- What is done on a path. The stores are numbered in the order of their creation. -/
inductive Act
  | create (network : Extent)
  | call (store : Nat) (call : Store.Call)
  | close (store : Nat)

/-- What an act means for the file: it is emptied for a new store, has these records flushed into
it, or is left as it was when the disk failed. -/
inductive Deed
  | emptied (edgeCount : Nat)
  | flushed (records : Array UInt32)
  | failed

def deedsOfFailure : Failure → List Deed
  | .io _ _ => [.failed]
  | _ => []

def deedsOf (s : Store) (d : Disk) : Store.Call → List Deed
  | .flush =>
    match (s.flush d).2 with
    | .ok () => [.flushed s.records]
    | .error _ => [.failed]
  | .set _ _ | .add _ _ | .merge _ | .get _ | .popularity _ => []

def act (path : String) (desk : Desk) : Act → Desk × List Deed
  | .create network =>
    match Store.create desk.disk path network with
    | (d, .ok s) => (⟨d, desk.stores ++ [some s]⟩, [.emptied s.edgeCount])
    | (d, .error f) => (⟨d, desk.stores⟩, deedsOfFailure f)
  | .call i c =>
    match desk.stores[i]? with
    | some (some s) =>
      (⟨(s.after desk.disk c).2, desk.stores.set i (some (s.after desk.disk c).1)⟩,
        deedsOf s desk.disk c)
    | _ => (desk, [])
  | .close i => (⟨desk.disk, desk.stores.set i none⟩, [])

/-- Does one thing after the other. Yields also what it meant for the file, in the same order. -/
def run (path : String) (desk : Desk) : List Act → Desk × List Deed
  | [] => (desk, [])
  | a :: rest =>
    let (desk, first) := desk.act path a
    let (desk, more) := run path desk rest
    (desk, first ++ more)

/-- The store writes to the file at the path, and its counters have edge numbers. -/
structure Serves (path : String) (d : Disk) (s : Store) : Prop where
  opened : d.openFile path = .ok s.file
  bounded : s.records.size ≤ UInt32.size

/-- All stores write to the file at the path, and while the disk does not fail this is what the
flushes since the last store was created have made of it. -/
structure Kept (path : String) (deeds : List Deed) (desk : Desk) : Prop where
  serving : ∀ s, some s ∈ desk.stores → Serves path desk.disk s
  layers : ∀ before c flushes, deeds = before ++ Deed.emptied c :: flushes.map Deed.flushed →
    ∃ id, desk.disk.openFile path = .ok id ∧
      desk.disk.content id = flushes.foldl overwritten (List.replicate (Index.byteSize c) 0) ∧
      extentOf c flushes ≤ UInt32.size

variable {path : String} {deeds before : List Deed} {deed : Deed} {desk : Desk} {d : Disk}
  {s t : Store} {c : Nat} {flushes : List (Array UInt32)}

theorem Serves.recounts (h : Serves path d s) (hr : s.Recounts t) : Serves path d t :=
  ⟨hr.file_eq ▸ h.opened, hr.size_eq ▸ h.bounded⟩

theorem Serves.rewrites {d' : Disk} {id : FileId} (h : Serves path d s)
    (hr : Disk.Rewrites id d d') : Serves path d' s :=
  ⟨hr.openFile h.opened, h.bounded⟩

/-- Where a file is made anew at the path, the stores that were there write to it. -/
theorem Serves.made {d' : Disk} {p : Disk.Place} {id : FileId} (h : Serves path d s)
    (hmade : Disk.Made path p id d d') : Serves path d' s :=
  ⟨hmade.eq_of_openFile h.opened ▸ hmade.openFile, h.bounded⟩

theorem extentOf_concat (c : Nat) (flushes : List (Array UInt32)) (records : Array UInt32) :
    extentOf c (flushes ++ [records]) = max (extentOf c flushes) records.size := by
  simp [extentOf]

/-- The last deed either emptied the file or was the last flush since. -/
theorem layers_snoc (h : deeds ++ [deed] = before ++ Deed.emptied c :: flushes.map Deed.flushed) :
    (deed = .emptied c ∧ flushes = []) ∨ ∃ rest records, flushes = rest ++ [records] ∧
      deed = .flushed records ∧ deeds = before ++ Deed.emptied c :: rest.map Deed.flushed := by
  rcases List.eq_nil_or_concat flushes with rfl | ⟨rest, records, rfl⟩
  · obtain ⟨-, hlast⟩ := List.append_inj' h rfl
    exact .inl ⟨List.singleton_inj.mp hlast, rfl⟩
  · rw [List.concat_eq_append] at h ⊢
    rw [List.map_append, ← List.cons_append, ← List.append_assoc] at h
    obtain ⟨hdeeds, hlast⟩ := List.append_inj' h rfl
    exact .inr ⟨rest, records, rfl, List.singleton_inj.mp hlast, hdeeds⟩

theorem Kept.start (path : String) (d : Disk) : Kept path [] ⟨d, []⟩ :=
  ⟨nofun, fun _ _ _ h => by simp at h⟩

/-- Nothing is known of the file after a failure but that the stores write to it. -/
theorem Kept.fail {d' : Disk} (hserving : ∀ s, some s ∈ desk.stores → Serves path d' s) :
    Kept path (deeds ++ [.failed]) ⟨d', desk.stores⟩ := by
  refine ⟨hserving, fun before c flushes h => ?_⟩
  rcases layers_snoc h with ⟨hdeed, -⟩ | ⟨_, _, -, hdeed, -⟩ <;> cases hdeed

theorem Kept.refused (h : Kept path deeds desk) (f : Failure) :
    Kept path (deeds ++ deedsOfFailure f) desk := by
  cases f with
  | io _ _ => exact .fail h.serving
  | configuration _ | formatVersion _ _ _ | sizeMismatch _ _ _ | malformedTrack _ _
  | malformedTable _ _ | trackFile _ _ =>
    show Kept path (deeds ++ []) desk
    rw [List.append_nil]
    exact h

theorem Kept.create (h : Kept path deeds desk) (network : Extent) :
    Kept path (deeds ++ (desk.act path (.create network)).2)
      (desk.act path (.create network)).1 := by
  have hcreated := Store.create_created desk.disk path network
  rcases hcreate : Store.create desk.disk path network with ⟨d', r⟩
  rw [hcreate] at hcreated
  cases hcreated with
  | refused _ | unopened =>
    simp only [act, hcreate]
    exact h.refused _
  | unsized made _ =>
    simp only [act, hcreate]
    exact .fail fun s hs => (h.serving s hs).made made
  | @created _ p id n admitted made zeros =>
    obtain ⟨-, hmax, rfl⟩ := Extent.admitted_eq_ok_iff.mp admitted
    have hsize : (Array.replicate network.edgeCount (0 : UInt32)).size = network.edgeCount :=
      Array.size_replicate
    simp only [act, hcreate, Store.edgeCount, hsize]
    refine ⟨fun s hs => ?_, fun before c flushes hdeeds => ?_⟩
    · rcases List.mem_append.mp hs with hold | hnew
      · exact (h.serving s hold).made made
      · cases List.mem_singleton.mp hnew
        exact ⟨made.openFile, hsize.symm ▸ hmax⟩
    · rcases layers_snoc hdeeds with ⟨hc, rfl⟩ | ⟨_, _, -, hflushed, -⟩
      · cases hc
        exact ⟨id, made.openFile, zeros, hmax⟩
      · cases hflushed

/-- To put a store in the place of one with the same file, or to take it away, changes nothing. -/
theorem Kept.replace (h : Kept path deeds desk) {i : Nat} {new : Option Store}
    (hnew : ∀ t, new = some t → ∃ s, some s ∈ desk.stores ∧ s.Recounts t) :
    Kept path deeds ⟨desk.disk, desk.stores.set i new⟩ := by
  refine ⟨fun t ht => ?_, h.layers⟩
  rcases List.mem_or_eq_of_mem_set ht with hold | heq
  · exact h.serving t hold
  · obtain ⟨s, hs, hr⟩ := hnew t heq.symm
    exact (h.serving s hs).recounts hr

theorem Kept.flush (h : Kept path deeds desk) (hs : some s ∈ desk.stores) :
    Kept path (deeds ++ deedsOf s desk.disk .flush) ⟨(s.flush desk.disk).1, desk.stores⟩ := by
  have hr := Store.rewrites_flush s desk.disk
  have hserving : ∀ t, some t ∈ desk.stores → Serves path (s.flush desk.disk).1 t :=
    fun t ht => (h.serving t ht).rewrites hr
  rcases hflush : s.flush desk.disk with ⟨d', f | ⟨⟩⟩
  · rw [hflush] at hserving
    simp only [deedsOf, hflush]
    exact .fail hserving
  · rw [hflush] at hserving
    simp only [deedsOf, hflush]
    refine ⟨hserving, fun before c flushes hdeeds => ?_⟩
    rcases layers_snoc hdeeds with ⟨hemptied, -⟩ | ⟨rest, records, rfl, hflushed, hrest⟩
    · cases hemptied
    · cases hflushed
      obtain ⟨id, hopen, hcontent, hextent⟩ := h.layers before c rest hrest
      have hserves := h.serving s hs
      obtain rfl : s.file = id := Except.ok.inj (hserves.opened.symm.trans hopen)
      have hlt := Disk.lt_of_openFile hopen
      refine ⟨s.file, (hserving s hs).opened, ?_, ?_⟩
      · rw [Store.content_of_flush hlt hflush, hcontent, List.foldl_append]
        rfl
      · rw [extentOf_concat]
        exact Nat.max_le.mpr ⟨hextent, hserves.bounded⟩

theorem Kept.call (h : Kept path deeds desk) (i : Nat) (c : Store.Call) :
    Kept path (deeds ++ (desk.act path (.call i c)).2) (desk.act path (.call i c)).1 := by
  rcases hi : desk.stores[i]? with _ | _ | s
  · simp only [act, hi, List.append_nil]
    exact h
  · simp only [act, hi, List.append_nil]
    exact h
  · have hs : some s ∈ desk.stores := List.mem_of_getElem? hi
    simp only [act, hi]
    cases c with
    | flush =>
      refine (h.flush hs).replace fun t ht => ⟨s, hs, ?_⟩
      cases ht
      exact .refl
    | set _ _ | add _ _ | merge _ | get _ | popularity _ =>
      rw [deedsOf, List.append_nil]
      refine h.replace fun t ht => ⟨s, hs, ?_⟩
      cases ht
      exact Store.recounts_after s desk.disk _

/-- Every act keeps what the file is and that all stores write to it. -/
theorem Kept.act (h : Kept path deeds desk) (a : Act) :
    Kept path (deeds ++ (desk.act path a).2) (desk.act path a).1 := by
  cases a with
  | create network => exact h.create network
  | call i c => exact h.call i c
  | close i =>
    simp only [Desk.act, List.append_nil]
    exact h.replace nofun

theorem Kept.run (h : Kept path deeds desk) (acts : List Act) :
    Kept path (deeds ++ (desk.run path acts).2) (desk.run path acts).1 := by
  induction acts generalizing desk deeds with
  | nil => simpa [Desk.run] using h
  | cons a rest ih =>
    have hrest := ih (h.act a)
    rw [List.append_assoc] at hrest
    exact hrest

/-! ## The file of a path -/

theorem length_foldl_overwritten (old : Bytes) (edgeCount : Nat)
    (hold : old.length = Index.byteSize edgeCount) (flushes : List (Array UInt32)) :
    (flushes.foldl overwritten old).length = Index.byteSize (extentOf edgeCount flushes) := by
  induction flushes generalizing old edgeCount with
  | nil => exact hold
  | cons records rest ih =>
    refine ih (overwritten old records) (max edgeCount records.size) ?_
    simp only [overwritten, List.length_append, Index.length_image, List.length_drop, hold,
      Index.byteSize, Index.recordWidth]
    omega

/-- Of layers of one size only the last is to be seen. -/
theorem foldl_lay_of_size {edgeCount : Nat} {old : Array UInt32} {flushes : List (Array UInt32)}
    (hold : old.size = edgeCount) (hf : ∀ records ∈ flushes, records.size = edgeCount)
    (hne : flushes ≠ []) : flushes.getLast? = some (flushes.foldl lay old) := by
  induction flushes generalizing old with
  | nil => exact absurd rfl hne
  | cons records rest ih =>
    have hsize : records.size = edgeCount := hf records List.mem_cons_self
    have hlay : lay old records = records := by
      have hnone : old.extract records.size old.size = #[] :=
        Array.extract_empty_of_stop_le_start (by omega)
      rw [lay, hnone, Array.append_empty]
    cases rest with
    | nil => rw [List.foldl_cons, List.foldl_nil, hlay, List.getLast?_singleton]
    | cons next more =>
      rw [List.getLast?_cons_cons, List.foldl_cons, hlay]
      exact ih hsize (fun r hr => hf r (List.mem_cons_of_mem _ hr)) (by simp)

theorem size_layers (c : Nat) (flushes : List (Array UInt32)) :
    (flushes.foldl lay (Array.replicate c 0)).size = extentOf c flushes := by
  rw [Index.size_foldl_lay, Array.size_replicate]

/-- Where a file was emptied, every record is that of the last flush that has one, or zero. -/
theorem getElem_layers {i : Nat} (h : i < (flushes.foldl lay (Array.replicate c 0)).size) :
    (flushes.foldl lay (Array.replicate c 0))[i] = topmost flushes i := by
  have hlayers := Index.getElem?_foldl_lay (Array.replicate c 0) flushes i
  have hzero : (Array.replicate c (0 : UInt32))[i]?.getD 0 = 0 := by
    by_cases hi : i < c <;> simp [hi]
  rw [Array.getElem?_eq_getElem h, Option.getD_some, hzero] at hlayers
  rw [hlayers, topmost]

/-- A store is loaded from a file of layers, once there is one, with what they show. -/
theorem load_layers {id : FileId} {network : Extent} (hopen : d.openFile path = .ok id)
    (hcontent : d.content id = flushes.foldl overwritten (List.replicate (Index.byteSize c) 0))
    (hmax : extentOf c flushes ≤ UInt32.size) :
    Store.load d path network = .ok (some s) ↔ flushes ≠ [] ∧ network.contracted = false ∧
      network.edgeCount = extentOf c flushes ∧
      s = ⟨path, id, flushes.foldl lay (Array.replicate c 0), true⟩ := by
  have himage (hne : flushes ≠ []) :
      d.content id = Index.image (flushes.foldl lay (Array.replicate c 0)) := by
    rw [hcontent, Index.replicate_byteSize, Index.foldl_overwritten 0 _ hne]
  rw [Store.load_eq_some_iff]
  constructor
  · rintro ⟨hbase, -, id', records, hopen', hbytes, hcount, rfl⟩
    obtain rfl : id = id' := Except.ok.inj (hopen.symm.trans hopen')
    have hne : flushes ≠ [] := by
      rintro rfl
      have hzeros : Index.Current (d.content id) := Index.current_iff.mpr ⟨records, hbytes⟩
      rw [hcontent] at hzeros
      exact Index.not_current_replicate _ hzeros
    have hrecords := Index.image_injective ((himage hne).symm.trans hbytes)
    refine ⟨hne, hbase, ?_, by rw [hrecords]⟩
    rw [← hcount, ← hrecords, size_layers]
  · rintro ⟨hne, hbase, hcount, rfl⟩
    exact ⟨hbase, hcount ▸ hmax, id, _, hopen, himage hne,
      (size_layers c flushes).trans hcount.symm, rfl⟩

/-- As long as the disk does not fail, the file at a path has as many records as the largest of the
stores that were flushed into it since it was emptied for a new one, and of that one. A store is
loaded from it once there was a flush, and has for every edge the record of the last flush that had
one. -/
theorem shared_path_law (d₀ : Disk) (path : String) (acts : List Act)
    (hdeeds : (run path ⟨d₀, []⟩ acts).2 =
      before ++ Deed.emptied c :: flushes.map Deed.flushed) :
    let d := (run path ⟨d₀, []⟩ acts).1.disk
    let m := extentOf c flushes
    (∃ id, d.openFile path = .ok id ∧ (d.content id).length = Index.byteSize m) ∧
    (∀ network, (∃ s, Store.load d path network = .ok (some s)) ↔
      flushes ≠ [] ∧ network.contracted = false ∧ network.edgeCount = m) ∧
    ∀ network s, Store.load d path network = .ok (some s) →
      s.records.size = m ∧ (∀ i, ∀ h : i < s.records.size, s.records[i] = topmost flushes i) ∧
        ((∀ records ∈ flushes, records.size = c) → flushes.getLast? = some s.records) := by
  intro d m
  have hkept := (Kept.start path d₀).run acts
  rw [List.nil_append] at hkept
  obtain ⟨id, hopen, hcontent, hmax⟩ := hkept.layers before c flushes hdeeds
  refine ⟨⟨id, hopen, ?_⟩, fun network => ⟨fun ⟨s, h⟩ => ?_, fun ⟨hne, hbase, hcount⟩ => ?_⟩,
    fun network s h => ?_⟩
  · rw [hcontent]
    exact length_foldl_overwritten _ c List.length_replicate flushes
  · obtain ⟨hne, hbase, hcount, -⟩ := (load_layers hopen hcontent hmax).mp h
    exact ⟨hne, hbase, hcount⟩
  · exact ⟨_, (load_layers hopen hcontent hmax).mpr ⟨hne, hbase, hcount, rfl⟩⟩
  · obtain ⟨hne, -, -, rfl⟩ := (load_layers hopen hcontent hmax).mp h
    exact ⟨size_layers c flushes, fun i hi => getElem_layers hi,
      fun hsame => foldl_lay_of_size Array.size_replicate hsame hne⟩

/-- A store of one edge is created while one of two edges is open, and both are flushed. The longer
one shows behind the shorter one. -/
theorem longer_store_shows_behind :
    let acts : List Act := [.create ⟨2, false⟩, .call 0 (.set 0 4), .call 0 (.set 1 5),
      .create ⟨1, false⟩, .call 0 .flush, .close 0, .call 1 (.add 0 3), .call 1 .flush]
    ∃ s, Store.load (run "index" ⟨Index.soleFile [], []⟩ acts).1.disk "index" ⟨2, false⟩ =
      .ok (some s) ∧ s.records = #[3, 5] := by
  intro acts
  have htwo := Store.create_soleFile (n := 2) [] (by decide)
  have hone := Store.create_soleFile (n := 1) (List.replicate (Index.byteSize 2) 0) (by decide)
  have hdeeds : (run "index" ⟨Index.soleFile [], []⟩ acts).2 =
      [.emptied 2] ++ Deed.emptied 1 :: [#[4, 5], #[3]].map Deed.flushed := by
    simp only [acts, run, act, htwo]
    simp only [List.nil_append, List.getElem?_cons_zero, List.set_cons_zero, Store.after, hone]
    rfl
  obtain ⟨-, hload, hrecords⟩ := shared_path_law _ "index" acts hdeeds
  obtain ⟨s, hs⟩ := (hload ⟨2, false⟩).mpr ⟨by simp, rfl, rfl⟩
  obtain ⟨hsize, htop, -⟩ := hrecords _ s hs
  refine ⟨s, hs, Array.ext hsize fun i hi hi' => ?_⟩
  rw [htop i hi]
  have hcases : i = 0 ∨ i = 1 := Nat.le_one_iff_eq_zero_or_eq_one.mp (Nat.le_of_lt_succ hi')
  rcases hcases with rfl | rfl
  · rfl
  · rfl

end Desk

end Ridership
