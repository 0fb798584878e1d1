import Mathlib.Data.List.Nodup
import Ridership.Proofs.Text.Utf8

/-!
# The order of paths

The path of a name in a folder has the parts of the folder and then the name, however the folder is
spelled. So different names in a folder have paths with different parts, and what is sorted by such
paths is in strict order.
-/

namespace Ridership.Disk.Path

variable {folder name a b : Bytes}

/-- A name that something in a folder can have. -/
structure EntryName (name : Bytes) : Prop where
  ne_nil : name ≠ []
  ne_dot : name ≠ [dot]
  ne_dots : name ≠ [dot, dot]
  no_slash : slash ∉ name

instance : Decidable (EntryName name) :=
  decidable_of_iff (name ≠ [] ∧ name ≠ [dot] ∧ name ≠ [dot, dot] ∧ slash ∉ name)
    ⟨fun ⟨h, hdot, hdots, hslash⟩ => ⟨h, hdot, hdots, hslash⟩,
      fun h => ⟨h.ne_nil, h.ne_dot, h.ne_dots, h.no_slash⟩⟩

theorem EntryName.part?_eq (h : EntryName name) : part? name = some (.name name) := by
  rw [part?, if_neg (not_or.mpr ⟨h.ne_nil, h.ne_dot⟩), if_neg h.ne_dots]

theorem EntryName.splitOn_eq (h : EntryName name) : name.splitOn slash = [name] :=
  List.splitOn_eq_singleton h.no_slash

/-! ## Parts -/

/-- A path is spelled by its folder and its name in one of three ways. -/
theorem inFolder_cases (folder name : Bytes) :
    (folder = [] ∧ inFolder folder name = name) ∨
    (∃ front, folder = front ++ [slash] ∧ inFolder folder name = front ++ slash :: name) ∨
    (folder ≠ [] ∧ inFolder folder name = folder ++ slash :: name) := by
  by_cases hempty : folder = []
  · exact .inl ⟨hempty, by simp [inFolder, hempty]⟩
  by_cases hslash : folder.getLast? = some slash
  · obtain ⟨front, rfl⟩ := List.getLast?_eq_some_iff.mp hslash
    exact .inr (.inl ⟨front, rfl, by simp [inFolder]⟩)
  · exact .inr (.inr ⟨hempty, if_neg (not_or.mpr ⟨hempty, hslash⟩)⟩)

theorem filterMap_inFolder (h : EntryName name) :
    ((inFolder folder name).splitOn slash).filterMap part? =
      (folder.splitOn slash).filterMap part? ++ [.name name] := by
  have hname : [name].filterMap part? = [Part.name name] := by
    rw [List.filterMap_cons_some h.part?_eq, List.filterMap_nil]
  have hnone : [[]].filterMap part? = [] := rfl
  rcases inFolder_cases folder name with ⟨rfl, hpath⟩ | ⟨front, rfl, hpath⟩ | ⟨-, hpath⟩
  · rw [hpath, h.splitOn_eq, hname]
    rfl
  · rw [hpath, List.splitOn_append_cons_self, List.splitOn_append_cons_self, List.filterMap_append,
      List.filterMap_append, h.splitOn_eq, hname, List.splitOn_nil, hnone, List.append_nil]
  · rw [hpath, List.splitOn_append_cons_self, List.filterMap_append, h.splitOn_eq, hname]

theorem head?_splitOn_append (front rest : Bytes) :
    ((front ++ slash :: rest).splitOn slash).head? = (front.splitOn slash).head? := by
  rw [List.splitOn_append_cons_self, List.head?_append,
    List.head?_eq_some_head (List.splitOn_ne_nil slash front), Option.some_or]

/-- What a path starts with does not depend on what stands behind a slash. -/
theorem start_append (front rest : Bytes) :
    start (front ++ slash :: rest) = start (front ++ [slash]) := by
  rw [start, start, head?_splitOn_append, head?_splitOn_append]
  cases front <;> rfl

theorem start_concat_slash (hfolder : folder ≠ []) : start (folder ++ [slash]) = start folder := by
  rw [start, start, head?_splitOn_append, List.head?_append_of_ne_nil folder hfolder]

theorem EntryName.start_eq (h : EntryName name) : start name = [] := by
  have hslash : name.head? ≠ some slash := fun hhead => h.no_slash (List.mem_of_mem_head? hhead)
  have hdot : (name.splitOn slash).head? ≠ some [dot] := by
    rw [h.splitOn_eq, List.head?_cons, Ne, Option.some.injEq]
    exact h.ne_dot
  rw [start, if_neg hslash, if_neg hdot]

theorem start_inFolder (h : EntryName name) : start (inFolder folder name) = start folder := by
  rcases inFolder_cases folder name with ⟨rfl, hpath⟩ | ⟨front, rfl, hpath⟩ | ⟨hfolder, hpath⟩
  · rw [hpath, h.start_eq]
    rfl
  · rw [hpath, start_append]
  · rw [hpath, start_append, start_concat_slash hfolder]

/-- A path has the parts of its folder and then its name. -/
theorem parts_inFolder (h : EntryName name) :
    parts (inFolder folder name) = parts folder ++ [.name name] := by
  rw [parts, start_inFolder h, filterMap_inFolder h, ← List.append_assoc, ← parts]

theorem fileName?_inFolder (h : EntryName name) : fileName? (inFolder folder name) = some name := by
  rw [fileName?, parts_inFolder h, List.getLast?_concat]

/-! ## Order -/

theorem order_inFolder (h : EntryName name) :
    order (inFolder folder name) = order folder ++ [3 :: name] := by
  rw [order, parts_inFolder h, List.map_append, List.map_singleton, order]
  rfl

/-- Different names in a folder have different paths, and these are not equal in the order. -/
theorem order_inFolder_inj (ha : EntryName a) (hb : EntryName b) :
    order (inFolder folder a) = order (inFolder folder b) ↔ a = b := by
  rw [order_inFolder ha, order_inFolder hb]
  simp

/-- In a folder a name is known by its path. -/
theorem inFolder_injective (folder : Bytes) : Function.Injective (inFolder folder) := by
  intro a b h
  unfold inFolder at h
  split at h
  · exact List.append_cancel_left h
  · exact (List.cons.inj (List.append_cancel_left h)).2

theorem bytesOf_join (folder name : String) :
    bytesOf (join folder name) = inFolder (bytesOf folder) (bytesOf name) := by
  have hempty : bytesOf folder = [] ↔ folder = "" := by
    rw [← bytesOf_injective.eq_iff (b := "")]
    rfl
  have hslash : (bytesOf folder).getLast? = some slash ↔ folder.endsWith "/" := by
    rw [getLast?_bytesOf_iff (d := '/') rfl (by decide), String.endsWith_eq_endsWith_toSlice,
      String.Slice.endsWith_string_iff, String.copy_toSlice]
    exact List.singleton_suffix_iff_getLast?_eq_some.symm
  have hseparator := or_congr hempty hslash
  by_cases h : folder = "" ∨ folder.endsWith "/"
  · rw [join, if_pos h, inFolder, if_pos (hseparator.mpr h), bytesOf_append]
  · rw [join, if_neg h, inFolder, if_neg (mt hseparator.mp h), bytesOf_append, bytesOf_append,
      List.append_assoc]
    rfl

/-! ## Sorting -/

section Sorting

variable {α : Type} {l l' : List α}

theorem pathLe_trans (a b c : Bytes) (hab : pathLe a b = true) (hbc : pathLe b c = true) :
    pathLe a c = true := by
  simp only [pathLe, decide_eq_true_eq] at *
  exact List.le_trans hab hbc

theorem pathLe_total (a b : Bytes) : (pathLe a b || pathLe b a) = true := by
  simp only [pathLe, Bool.or_eq_true, decide_eq_true_eq]
  exact List.le_total _ _

/-- What is sorted by its paths is in their order. -/
theorem pairwise_mergeSort (pathOf : α → Bytes) (l : List α) :
    (l.mergeSort fun a b => pathLe (pathOf a) (pathOf b)).Pairwise fun a b =>
      order (pathOf a) ≤ order (pathOf b) := by
  have hsorted := List.pairwise_mergeSort
    (fun a b c => pathLe_trans (pathOf a) (pathOf b) (pathOf c))
    (fun a b => pathLe_total (pathOf a) (pathOf b)) l
  exact hsorted.imp of_decide_eq_true

/-- Paths that are not equal in the order are in strict order when they are sorted. -/
theorem strict_mergeSort (pathOf : α → Bytes)
    (hdistinct : (l.map fun a => order (pathOf a)).Nodup) :
    (l.mergeSort fun a b => pathLe (pathOf a) (pathOf b)).Pairwise fun a b =>
      order (pathOf a) < order (pathOf b) := by
  have hne : (l.mergeSort fun a b => pathLe (pathOf a) (pathOf b)).Pairwise fun a b =>
      order (pathOf a) ≠ order (pathOf b) :=
    List.pairwise_map.mp (((List.mergeSort_perm l _).map _).nodup_iff.mpr hdistinct)
  exact ((pairwise_mergeSort pathOf l).and hne).imp fun h => Std.lt_of_le_of_ne h.1 h.2

/-- What is in strict order of its paths is in this order alone. -/
theorem eq_of_strict (pathOf : α → Bytes) (hperm : l'.Perm l)
    (h : l.Pairwise fun a b => order (pathOf a) < order (pathOf b))
    (h' : l'.Pairwise fun a b => order (pathOf a) < order (pathOf b)) : l' = l :=
  List.Perm.eq_of_pairwise (fun _ _ _ _ hab hba => absurd hba (List.lt_asymm hab)) h' h hperm

end Sorting

end Ridership.Disk.Path
