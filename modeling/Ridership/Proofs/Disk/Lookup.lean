import Ridership.Disk.Basic

/-!
# What paths lead to when files come and go

Only folders and links are walked through on the way to the end of a path. So disks with the same
folders and links lead a path to the same place, whatever files they have, and it is decided at
that place alone whether there is a file.
-/

namespace Ridership.Disk

variable {d d' : Disk} {p q : Place} {id : FileId} {path : String}

def branch? (d : Disk) (p : Place) : Option Node :=
  match d.node? p with
  | some (.file _) => none
  | n => n

/-- The disks have the same folders and links. -/
def SameBranches (d d' : Disk) : Prop :=
  ∀ p, d'.branch? p = d.branch? p

/-- A place where there is no folder and no link. -/
def IsLeaf (d : Disk) (p : Place) : Prop :=
  d.node? p = none ∨ ∃ id, d.node? p = some (.file id)

theorem branch?_eq_none_iff : d.branch? p = none ↔ d.IsLeaf p := by
  unfold branch? IsLeaf
  cases h : d.node? p with
  | none => simp
  | some n => cases n <;> simp

/-- Disks that differ at one place, where neither has a folder or link, have the same ones. -/
theorem sameBranches_of_leaf (hd : d.IsLeaf q) (hd' : d'.IsLeaf q)
    (h : ∀ p, p ≠ q → d'.node? p = d.node? p) : SameBranches d d' := by
  intro p
  by_cases hp : p = q
  · rw [hp, branch?_eq_none_iff.mpr hd, branch?_eq_none_iff.mpr hd']
  · unfold branch?
    rw [h p hp]

theorem node?_of_branch? {n : Node} (h : d.branch? p = some n) : d.node? p = some n := by
  unfold branch? at h
  split at h
  · cases h
  · exact h

theorem branch?_of_node? {n : Node} (h : d.node? p = some n) (hn : ∀ id, n ≠ .file id) :
    d.branch? p = some n := by
  unfold branch?
  cases n with
  | file id => exact absurd rfl (hn id)
  | folder => rw [h]
  | link target => rw [h]

theorem SameBranches.node? {n : Node} (h : SameBranches d d') (hp : d.node? p = some n)
    (hn : ∀ id, n ≠ .file id) : d'.node? p = some n :=
  node?_of_branch? ((h p).trans (branch?_of_node? hp hn))

theorem SameBranches.isLeaf (h : SameBranches d d') (hp : d.IsLeaf p) : d'.IsLeaf p :=
  branch?_eq_none_iff.mp ((h p).trans (branch?_eq_none_iff.mpr hp))

/-- What a disk has at the place of a target. -/
def Target.on (d : Disk) : Target → Target
  | .folder p => .folder p
  | .file p _ | .vacant p =>
    match d.node? p with
    | some (.file id) => .file p id
    | _ => .vacant p

theorem Target.on_of_file (hp : d.node? p = some (.file id)) {t : Target}
    (ht : t = .vacant p ∨ ∃ id', t = .file p id') : t.on d = .file p id := by
  rcases ht with rfl | ⟨id', rfl⟩ <;> simp only [Target.on, hp]

theorem Target.on_of_none (hp : d.node? p = none) {t : Target}
    (ht : t = .vacant p ∨ ∃ id', t = .file p id') : t.on d = .vacant p := by
  rcases ht with rfl | ⟨id', rfl⟩ <;> simp only [Target.on, hp]

/-- A name of something in a folder, and not too long. -/
def IsName (name : String) : Prop :=
  ¬(name = "" ∨ name = ".") ∧ name ≠ ".." ∧ ¬maxName < name.utf8ByteSize

theorem walk_skip {links : Nat} {folder : Place} {name : String} {rest : List String}
    (h : name = "" ∨ name = ".") :
    d.walk links folder (name :: rest) = d.walk links folder rest := by
  rw [walk, if_pos h]

theorem walk_up {links : Nat} {folder : Place} {rest : List String} :
    d.walk links folder (".." :: rest) = d.walk links folder.dropLast rest := by
  rw [walk, if_neg (by decide), if_pos rfl]

/-- A walk goes on through a folder or link, and ends where there is neither. -/
theorem walk_name {links : Nat} {folder : Place} {name : String} {rest : List String}
    (h : IsName name) :
    d.walk links folder (name :: rest) =
      match d.node? (folder ++ [name]) with
      | some .folder => d.walk links (folder ++ [name]) rest
      | some (.file id) =>
        if rest = [] then .ok (.file (folder ++ [name]) id) else .error .notAFolder
      | some (.link target) =>
        match links with
        | 0 => .error .tooManyLinks
        | links + 1 =>
          d.walk links (if target.startsWith "/" then [] else folder) (names target ++ rest)
      | none => if rest = [] then .ok (.vacant (folder ++ [name])) else .error .notFound := by
  rw [walk, if_neg h.1, if_neg h.2.1]
  exact if_neg h.2.2

theorem walk_leaf {links : Nat} {folder : Place} {name : String} (h : IsName name)
    (hl : d.IsLeaf (folder ++ [name])) :
    d.walk links folder [name] = .ok ((Target.vacant (folder ++ [name])).on d) := by
  rw [walk_name h]
  rcases hl with hn | ⟨id, hn⟩ <;> simp only [Target.on, hn, if_true]

/-- A walk that goes into no folder with its last name has a proper name there. -/
theorem isName_of_walk {links : Nat} {folder : Place} {name : String} {t : Target}
    (hw : d.walk links folder [name] = .ok t) (ht : ∀ q, t ≠ .folder q) : IsName name := by
  by_cases hskip : name = "" ∨ name = "."
  · rw [walk_skip hskip, walk] at hw
    exact absurd (Except.ok.inj hw).symm (ht _)
  by_cases hup : name = ".."
  · subst hup
    rw [walk_up, walk] at hw
    exact absurd (Except.ok.inj hw).symm (ht _)
  refine ⟨hskip, hup, fun hlong => ?_⟩
  rw [walk, if_neg hskip, if_neg hup, if_pos hlong] at hw
  cases hw

/-- A walk on a disk with the same folders and links ends at the same place. -/
theorem walk_on (h : SameBranches d d') {links : Nat} {folder : Place} {ns : List String}
    {t : Target} (hw : d.walk links folder ns = .ok t) :
    d'.walk links folder ns = .ok (t.on d') := by
  -- Both walks go through the same folders and links. The second one can only differ at the last
  -- name, where the first one met a file or nothing.
  fun_induction d.walk links folder ns with
  | case1 links folder =>
    cases hw
    rw [walk]
    rfl
  | case2 links folder name rest hskip ih => rw [walk_skip hskip, ih hw]
  | case3 links folder rest _ ih => rw [walk_up, ih hw]
  | case4 | case7 | case8 | case11 => cases hw
  | case5 links folder name rest hd hu hs place hp ih =>
    rw [walk_name ⟨hd, hu, hs⟩, h.node? hp (by simp)]
    exact ih hw
  | case6 links folder name hd hu hs place id hp =>
    cases hw
    exact walk_leaf ⟨hd, hu, hs⟩ (h.isLeaf (.inr ⟨id, hp⟩))
  | case9 folder name rest hd hu hs place target hp links ih =>
    rw [walk_name ⟨hd, hu, hs⟩, h.node? hp (by simp)]
    exact ih (by simpa using hw)
  | case10 links folder name hd hu hs place hp =>
    cases hw
    exact walk_leaf ⟨hd, hu, hs⟩ (h.isLeaf (.inl hp))

/-- The disk has at the place of a target what the target says. -/
def Target.Holds (d : Disk) : Target → Prop
  | .folder _ => True
  | .file p id => d.node? p = some (.file id)
  | .vacant p => d.node? p = none

theorem walk_holds {links : Nat} {folder : Place} {ns : List String} {t : Target}
    (hw : d.walk links folder ns = .ok t) : t.Holds d := by
  fun_induction d.walk links folder ns with
  | case1 => cases hw; trivial
  | case2 _ _ _ _ _ ih | case3 _ _ _ _ ih | case5 _ _ _ _ _ _ _ _ _ ih => exact ih hw
  | case4 | case7 | case8 | case11 => cases hw
  | case6 _ _ _ _ _ _ _ _ hp => cases hw; exact hp
  | case9 _ _ _ _ _ _ _ _ _ _ ih => exact ih (by simpa using hw)
  | case10 _ _ _ _ _ _ _ hp => cases hw; exact hp

/-- A walk to the end of a path comes through the folder above it. -/
theorem walk_append {links : Nat} {folder : Place} {ns rest : List String} {t : Target}
    (hr : rest ≠ []) (hw : d.walk links folder (ns ++ rest) = .ok t) :
    ∃ above links', d.walk links folder ns = .ok (.folder above) ∧
      d.walk links' above rest = .ok t := by
  fun_induction d.walk links folder ns with
  | case1 links folder => exact ⟨folder, links, rfl, hw⟩
  | case2 links folder name more hskip ih =>
    rw [List.cons_append, walk_skip hskip] at hw
    exact ih hw
  | case3 links folder more _ ih =>
    rw [List.cons_append, walk_up] at hw
    exact ih hw
  | case4 links folder name more hd hu hs =>
    rw [List.cons_append, walk, if_neg hd, if_neg hu, if_pos hs] at hw
    cases hw
  | case5 links folder name more hd hu hs place hp ih =>
    rw [List.cons_append, walk_name ⟨hd, hu, hs⟩, hp] at hw
    exact ih hw
  | case6 links folder name hd hu hs place id hp =>
    rw [List.cons_append, walk_name ⟨hd, hu, hs⟩, hp] at hw
    simp [hr] at hw
  | case7 links folder name more hd hu hs place id hp hne =>
    rw [List.cons_append, walk_name ⟨hd, hu, hs⟩, hp] at hw
    simp [hr] at hw
  | case8 folder name more hd hu hs place target hp =>
    rw [List.cons_append, walk_name ⟨hd, hu, hs⟩, hp] at hw
    cases hw
  | case9 folder name more hd hu hs place target hp links ih =>
    rw [List.cons_append, walk_name ⟨hd, hu, hs⟩, hp] at hw
    exact ih (by simpa using hw)
  | case10 links folder name hd hu hs place hp =>
    rw [List.cons_append, walk_name ⟨hd, hu, hs⟩, hp] at hw
    simp [hr] at hw
  | case11 links folder name more hd hu hs place hp hne =>
    rw [List.cons_append, walk_name ⟨hd, hu, hs⟩, hp] at hw
    simp [hr] at hw

end Ridership.Disk
