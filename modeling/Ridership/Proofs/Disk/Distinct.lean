import Mathlib.Data.List.Nodup
import Ridership.Disk.Layout
import Ridership.Proofs.Disk.Confined

/-!
# One node for each place

A disk that is laid out from nothing has no two nodes at one place, since names are added only where
there is nothing. On such a disk the entries of a folder have different names, each entry is what is
at the place of its name, and the order in which the disk has its nodes makes no difference to what
paths lead to.
-/

namespace Ridership.Disk

variable {d d' : Disk} {p place folder : Place} {id : FileId} {path name : String} {node : Node}
  {nodes : List (Place × Node)}

/-- No place has two nodes. -/
def Distinct (d : Disk) : Prop :=
  (d.nodes.map Prod.fst).Nodup

theorem find?_place_iff (hd : (nodes.map Prod.fst).Nodup) :
    (nodes.find? fun n => n.1 == p).map Prod.snd = some node ↔ (p, node) ∈ nodes := by
  induction nodes with
  | nil => exact ⟨nofun, nofun⟩
  | cons first rest ih =>
    obtain ⟨q, other⟩ := first
    obtain ⟨hfirst, hrest⟩ := List.nodup_cons.mp hd
    by_cases hq : q = p
    · subst hq
      have hgone : (q, node) ∉ rest := fun hmem => hfirst (List.mem_map.mpr ⟨_, hmem, rfl⟩)
      simp [hgone, eq_comm]
    · rw [List.find?_cons_of_neg (by simpa using hq), ih hrest, List.mem_cons, Prod.mk.injEq]
      simp [Ne.symm hq]

/-- What is at a place is the node that the disk has for it. -/
theorem node?_eq_some_iff (hd : d.Distinct) (hp : p ≠ []) :
    d.node? p = some node ↔ (p, node) ∈ d.nodes := by
  rw [node?, if_neg hp]
  exact find?_place_iff hd

theorem node?_eq_none_iff (hp : p ≠ []) : d.node? p = none ↔ p ∉ d.nodes.map Prod.fst := by
  rw [node?, if_neg hp, Option.map_eq_none_iff, List.find?_eq_none]
  simp only [List.mem_map, not_exists, not_and, beq_iff_eq]

/-! ## Entries of a folder -/

/-- The name of a node that is directly in a folder. -/
def entryIn? (folder : Place) (n : Place × Node) : Option (String × Node) :=
  match n.1.getLast? with
  | some name => if n.1.dropLast = folder then some (name, n.2) else none
  | none => none

theorem entryIn?_eq_some_iff {n : Place × Node} :
    entryIn? folder n = some (name, node) ↔ n = (folder ++ [name], node) := by
  obtain ⟨p, other⟩ := n
  unfold entryIn?
  rcases List.eq_nil_or_concat p with rfl | ⟨above, last, rfl⟩
  · simp
  · simp only [List.concat_eq_append, List.getLast?_append, List.getLast?_singleton,
      List.dropLast_concat]
    simp only [Option.some_or, Prod.mk.injEq]
    constructor
    · intro h
      split at h
      · next hfolder =>
        cases h
        exact ⟨by rw [hfolder], rfl⟩
      · cases h
    · rintro ⟨hplace, rfl⟩
      obtain ⟨rfl, hlast⟩ := List.append_inj' hplace rfl
      cases hlast
      exact if_pos rfl

theorem entries_of_folder (hl : d.locate path = .ok (.folder folder)) :
    d.entries path = .ok (d.nodes.filterMap (entryIn? folder)) := by
  rw [entries, hl]
  rfl

theorem mem_entries_iff (hd : d.Distinct) :
    (name, node) ∈ d.nodes.filterMap (entryIn? folder) ↔
      d.node? (folder ++ [name]) = some node := by
  rw [node?_eq_some_iff hd (by simp), List.mem_filterMap]
  simp only [entryIn?_eq_some_iff, exists_eq_right]

/-- The entries of a folder have different names. -/
theorem nodup_entries (hd : d.Distinct) :
    ((d.nodes.filterMap (entryIn? folder)).map Prod.fst).Nodup := by
  refine List.pairwise_map.mpr (List.Pairwise.filterMap _ ?_ (List.pairwise_map.mp hd))
  rintro n n' hne ⟨name, node⟩ hn ⟨name', node'⟩ hn' hname
  rw [entryIn?_eq_some_iff] at hn hn'
  obtain rfl : name = name' := hname
  rw [hn, hn'] at hne
  exact hne rfl

/-! ## The order of the nodes -/

theorem distinct_of_perm (hd : d.Distinct) (h : d'.nodes.Perm d.nodes) : d'.Distinct :=
  (h.map Prod.fst).nodup_iff.mpr hd

theorem node?_of_perm (hd : d.Distinct) (h : d'.nodes.Perm d.nodes) (p : Place) :
    d'.node? p = d.node? p := by
  by_cases hp : p = []
  · rw [hp, node?_root, node?_root]
  · refine Option.ext fun node => ?_
    rw [node?_eq_some_iff hd hp, node?_eq_some_iff (distinct_of_perm hd h) hp, h.mem_iff]

/-- The same folders are found however a disk has its nodes ordered. -/
theorem locate_folder_of_perm (hd : d.Distinct) (h : d'.nodes.Perm d.nodes)
    (hl : d.locate path = .ok (.folder folder)) : d'.locate path = .ok (.folder folder) := by
  have hbranches : SameBranches d d' := fun p => by rw [branch?, branch?, node?_of_perm hd h]
  exact locate_on hbranches hl

/-! ## What keeps places distinct -/

theorem Distinct.cons (hd : d.Distinct) (hp : d.node? p = none) :
    (((p, node) :: d.nodes).map Prod.fst).Nodup := by
  have hroot : p ≠ [] := IsLeaf.ne_root (.inl hp)
  exact List.nodup_cons.mpr ⟨(node?_eq_none_iff hroot).mp hp, hd⟩

end Ridership.Disk
