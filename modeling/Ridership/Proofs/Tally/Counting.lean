import Ridership.Snap.Matching

/-!
# What tallies count

A confirmed ride takes two touches of its own. So the tally of a track with less than twice as many
points as there are 32-bit numbers counts exactly, and it counts only edges that were touched.
-/

namespace Ridership

namespace Tally

variable {edges : List EdgeId} {e prev : EdgeId} {last : Option EdgeId}

theorem mem_of_mem_confirmedAfter (h : e ∈ confirmedAfter prev last edges) : e ∈ edges := by
  fun_induction confirmedAfter prev last edges with
  | case1 => exact h
  | case2 prev last e' rest _ ih =>
    rcases List.mem_cons.mp h with rfl | hrest
    · exact List.mem_cons_self
    · exact List.mem_cons_of_mem _ (ih hrest)
  | case3 prev last e' rest _ ih => exact List.mem_cons_of_mem _ (ih h)

theorem mem_of_mem_confirmed (h : e ∈ confirmed edges) : e ∈ edges := by
  cases edges with
  | nil => exact h
  | cons first rest => exact List.mem_cons_of_mem _ (mem_of_mem_confirmedAfter h)

/-- The touch in front takes part in a ride only when its edge was not the last one confirmed. -/
theorem two_mul_length_confirmedAfter (prev : EdgeId) (last : Option EdgeId)
    (edges : List EdgeId) :
    2 * (confirmedAfter prev last edges).length ≤
      edges.length + (if last = some prev then 0 else 1) := by
  fun_induction confirmedAfter prev last edges with
  | case1 => exact Nat.zero_le _
  | case2 prev last e' rest h ih =>
    obtain ⟨rfl, hlast⟩ := h
    rw [if_pos rfl] at ih
    rw [if_neg hlast]
    simp only [List.length_cons]
    omega
  | case3 prev last e' rest _ ih =>
    have hone : (if last = some e' then 0 else 1) ≤ 1 := by split <;> omega
    simp only [List.length_cons]
    omega

/-- A confirmed ride takes two touches. -/
theorem two_mul_length_confirmed (edges : List EdgeId) :
    2 * (confirmed edges).length ≤ edges.length := by
  cases edges with
  | nil => exact Nat.le_refl _
  | cons first rest =>
    have h := two_mul_length_confirmedAfter first none rest
    rwa [if_neg nofun] at h

theorem getD_foldl_bump (t : Tally) (edges : List EdgeId) (e : EdgeId) :
    (edges.foldl bump t).getD e 0 = t.getD e 0 + UInt32.ofNat (edges.count e) := by
  induction edges generalizing t with
  | nil => simp
  | cons first rest ih =>
    rw [List.foldl_cons, ih, getD_bump, List.count_cons]
    by_cases h : first = e
    · subst h
      rw [if_pos rfl, beq_self_eq_true, if_pos rfl, UInt32.ofNat_add, UInt32.add_assoc,
        UInt32.add_comm 1]
      rfl
    · simp [h]

theorem getD_ofList (edges : List EdgeId) (e : EdgeId) :
    (ofList edges).getD e 0 = UInt32.ofNat (edges.count e) := by
  rw [ofList, getD_foldl_bump, Std.TreeMap.getD_emptyc, UInt32.zero_add]

theorem toNat_getD_ofList (h : edges.length < UInt32.size) (e : EdgeId) :
    ((ofList edges).getD e 0).toNat = edges.count e := by
  rw [getD_ofList]
  exact UInt32.toNat_ofNat_of_lt (Nat.lt_of_le_of_lt List.count_le_length h)

theorem toNat_getD_ofTouches (h : edges.length < 2 * UInt32.size) (e : EdgeId) :
    ((ofTouches edges).getD e 0).toNat = (confirmed edges).count e := by
  have htwo := two_mul_length_confirmed edges
  exact toNat_getD_ofList (by omega) e

theorem mem_of_mem_foldl_bump {t : Tally} (h : e ∈ edges.foldl bump t) : e ∈ t ∨ e ∈ edges := by
  induction edges generalizing t with
  | nil => exact .inl h
  | cons first rest ih =>
    rcases ih h with ht | hrest
    · rw [bump, Std.TreeMap.mem_insert] at ht
      rcases ht with heq | ht
      · exact .inr (List.mem_cons.mpr (.inl (Std.LawfulEqCmp.eq_of_compare heq).symm))
      · exact .inl ht
    · exact .inr (List.mem_cons_of_mem _ hrest)

theorem mem_of_mem_toList {t : Tally} {n : UInt32} (h : (e, n) ∈ t.toList) : e ∈ t := by
  rw [Std.TreeMap.mem_iff_isSome_getElem?, Std.TreeMap.mem_toList_iff_getElem?_eq_some.mp h]
  rfl

theorem mem_of_mem_ofList (h : e ∈ ofList edges) : e ∈ edges :=
  (mem_of_mem_foldl_bump h).resolve_left Std.TreeMap.not_mem_emptyc

end Tally

namespace Snap.Matcher

variable {m : Matcher} {track : List Geo.Point} {e : EdgeId}

/-- The rides on an edge that a track confirms. -/
def rides (m : Matcher) (track : List Geo.Point) (e : EdgeId) : Nat :=
  (Tally.confirmed ((m.touches track).map Hit.edge)).count e

/-- The tally of a track has the rides that the track confirms. -/
theorem toNat_tally (h : track.length < 2 * UInt32.size) (e : EdgeId) :
    ((m.tally track).getD e 0).toNat = m.rides track e := by
  have htouches : (m.touches track).length ≤ track.length := List.length_filterMap_le _ _
  refine Tally.toNat_getD_ofTouches ?_ e
  rw [List.length_map]
  exact Nat.lt_of_le_of_lt htouches h

theorem located_of_mem_tally (h : e ∈ m.tally track) :
    ∃ p hit, m.locate p = some hit ∧ hit.edge = e := by
  have htouched := Tally.mem_of_mem_confirmed (Tally.mem_of_mem_ofList h)
  obtain ⟨hit, hmem, rfl⟩ := List.mem_map.mp htouched
  obtain ⟨p, -, htouch⟩ := List.mem_filterMap.mp hmem
  exact ⟨p, hit, (Option.filter_eq_some_iff.mp htouch).1, rfl⟩

end Snap.Matcher

end Ridership
