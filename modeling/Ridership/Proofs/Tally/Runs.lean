import Mathlib.Algebra.GroupWithZero.Nat
import Mathlib.Algebra.Order.BigOperators.Group.Finset
import Mathlib.Algebra.Order.BigOperators.Group.List
import Mathlib.Data.List.Destutter
import Mathlib.Data.List.SplitBy
import Mathlib.Data.List.TakeWhile
import Ridership.Proofs.Tally.Counting

/-!
# Rides as runs

The touches of a track fall into runs on one edge. A run of two touches or more is a ride, unless
the long run before it was on the same edge. This is what a tally counts, although it is taken in
one pass that remembers two edges only: the one touched last and the one confirmed last.
-/

namespace Ridership

namespace Tally

variable {edges rest : List EdgeId} {a e prev : EdgeId} {last : Option EdgeId}

/-- The edges of the runs of two touches or more, in order. -/
def longRuns (edges : List EdgeId) : List EdgeId :=
  ((edges.splitBy (· == ·)).filter (2 ≤ ·.length)).filterMap List.head?

/-- The long runs without those on the edge of the long run before them. -/
def keptRuns (edges : List EdgeId) : List EdgeId :=
  (longRuns edges).destutter (· ≠ ·)

/-! ## The first run -/

theorem takeWhile_eq_replicate (a : EdgeId) (edges : List EdgeId) :
    edges.takeWhile (· == a) = List.replicate (edges.takeWhile (· == a)).length a :=
  List.eq_replicate_iff.mpr ⟨rfl, fun _ hb => eq_of_beq (List.mem_takeWhile_imp (p := (· == a)) hb)⟩

/-- The first run goes on as long as its edge does. -/
theorem splitBy_cons (a : EdgeId) (edges : List EdgeId) :
    (a :: edges).splitBy (· == ·) =
      (a :: edges.takeWhile (· == a)) :: (edges.dropWhile (· == a)).splitBy (· == ·) := by
  have hrun : a :: edges.takeWhile (· == a) =
      List.replicate ((edges.takeWhile (· == a)).length + 1) a := by
    rw [List.replicate_succ, ← takeWhile_eq_replicate]
  have hchain : (a :: edges.takeWhile (· == a)).IsChain fun x y => (x == y) = true := by
    rw [hrun]
    exact List.isChain_replicate_of_rel _ (beq_self_eq_true a)
  have hends : ∀ x ∈ (a :: edges.takeWhile (· == a)).getLast?,
      ∀ y ∈ (edges.dropWhile (· == a)).head?, (x == y) = false := by
    intro x hx y hy
    have hxa : x = a := List.eq_of_mem_replicate (hrun ▸ List.mem_of_getLast? hx)
    have hya := List.head?_dropWhile_not (· == a) edges
    rw [Option.mem_def.mp hy] at hya
    rw [hxa, Bool.beq_comm]
    exact hya
  conv_lhs => rw [← List.takeWhile_append_dropWhile (p := (· == a)) (l := edges)]
  rw [← List.cons_append, List.splitBy_append hends,
    List.splitBy_of_isChain (List.cons_ne_nil _ _) hchain, List.singleton_append]

/-- A first touch starts a long run exactly if the next one lies on its edge. -/
theorem longRuns_cons (a : EdgeId) (edges : List EdgeId) :
    longRuns (a :: edges) =
      (if edges.head? = some a then [a] else []) ++ longRuns (edges.dropWhile (· == a)) := by
  unfold longRuns
  rw [splitBy_cons]
  cases edges with
  | nil => rfl
  | cons b rest =>
    by_cases h : b = a
    · subst h
      simp
    · simp [h]

theorem longRuns_of_ne (h : e ≠ prev) : longRuns (prev :: e :: rest) = longRuns (e :: rest) := by
  rw [longRuns_cons, if_neg (by simpa using h), List.dropWhile_cons_of_neg (by simpa using h),
    List.nil_append]

theorem longRuns_twice (a : EdgeId) (rest : List EdgeId) :
    longRuns (a :: a :: rest) = a :: longRuns (rest.dropWhile (· == a)) := by
  rw [longRuns_cons, List.head?_cons, if_pos rfl,
    List.dropWhile_cons_of_pos (p := (· == a)) (beq_self_eq_true a), List.singleton_append]

/-! ## One pass -/

/-- The edges of a list that are not the edge in front of them, which for the first is `last`. -/
def unrepeated : Option EdgeId → List EdgeId → List EdgeId
  | none, l => l.destutter (· ≠ ·)
  | some a, l => (l.destutter' (· ≠ ·) a).tail

theorem unrepeated_cons_self (a : EdgeId) (l : List EdgeId) :
    unrepeated (some a) (a :: l) = unrepeated (some a) l := by
  show ((a :: l).destutter' (· ≠ ·) a).tail = _
  rw [List.destutter'_cons_neg _ (not_not_intro rfl)]
  rfl

theorem unrepeated_cons_of_ne {l : List EdgeId} (h : last ≠ some a) :
    unrepeated last (a :: l) = a :: unrepeated (some a) l := by
  have hfirst : l.destutter' (· ≠ ·) a = a :: (l.destutter' (· ≠ ·) a).tail := by
    induction l with
    | nil => rfl
    | cons b rest ih =>
      by_cases hb : a ≠ b
      · rw [List.destutter'_cons_pos _ hb, List.tail_cons]
      · rw [List.destutter'_cons_neg _ hb]
        exact ih
  cases last with
  | none =>
    show (a :: l).destutter (· ≠ ·) = _
    rw [List.destutter_cons', hfirst]
    rfl
  | some b =>
    have hb : b ≠ a := fun heq => h (congrArg some heq)
    show ((a :: l).destutter' (· ≠ ·) b).tail = _
    rw [List.destutter'_cons_pos _ hb, List.tail_cons, hfirst]
    rfl

/-- Once a run is confirmed, it makes no difference how long it is. -/
theorem unrepeated_longRuns_cons (a : EdgeId) (edges : List EdgeId) :
    unrepeated (some a) (longRuns (a :: edges)) =
      unrepeated (some a) (longRuns (edges.dropWhile (· == a))) := by
  rw [longRuns_cons]
  split
  · rw [List.singleton_append, unrepeated_cons_self]
  · rw [List.nil_append]

/-- What is confirmed after a touch are the long runs from that touch on, less those that only
continue the edge confirmed last. -/
theorem confirmedAfter_eq (prev : EdgeId) (last : Option EdgeId) (edges : List EdgeId) :
    confirmedAfter prev last edges = unrepeated last (longRuns (prev :: edges)) := by
  fun_induction confirmedAfter prev last edges with
  | case1 prev last => cases last <;> rfl
  | case2 prev last e rest h ih =>
    obtain ⟨rfl, hlast⟩ := h
    rw [ih, longRuns_twice, unrepeated_cons_of_ne hlast, unrepeated_longRuns_cons]
  | case3 prev last e rest h ih =>
    rw [ih]
    by_cases heq : e = prev
    · subst heq
      obtain rfl : last = some e := Classical.not_not.mp fun hne => h ⟨rfl, hne⟩
      rw [longRuns_twice, unrepeated_cons_self, unrepeated_longRuns_cons]
    · rw [longRuns_of_ne heq]

/-- The confirmed touches are one for each ride. -/
theorem confirmed_eq_keptRuns (edges : List EdgeId) : confirmed edges = keptRuns edges := by
  cases edges with
  | nil => rfl
  | cons first rest => exact confirmedAfter_eq first none rest

theorem two_mul_length_keptRuns (edges : List EdgeId) :
    2 * (keptRuns edges).length ≤ edges.length := by
  rw [← confirmed_eq_keptRuns]
  exact two_mul_length_confirmed edges

/-! ## What is counted -/

/-- Two touches in a row on an edge are confirmed, unless that edge was the one confirmed last. -/
theorem mem_confirmedAfter_iff (h : last ≠ some e) :
    e ∈ confirmedAfter prev last edges ↔ [e, e] <:+: prev :: edges := by
  fun_induction confirmedAfter prev last edges with
  | case1 prev last => simp [List.infix_cons_iff]
  | case2 prev last e' rest hc ih =>
    obtain ⟨rfl, -⟩ := hc
    rw [List.mem_cons, List.infix_cons_iff, List.cons_prefix_cons, List.cons_prefix_cons]
    by_cases heq : e = e'
    · simp [heq]
    · rw [ih fun hs => heq (Option.some.inj hs).symm]
      simp [heq]
  | case3 prev last e' rest hc ih =>
    rw [ih h]
    refine ⟨fun hrest => List.infix_cons_iff.mpr (.inr hrest), fun hall => ?_⟩
    refine (List.infix_cons_iff.mp hall).resolve_left fun hpair => ?_
    rw [List.cons_prefix_cons, List.cons_prefix_cons] at hpair
    obtain ⟨rfl, rfl, -⟩ := hpair
    exact hc ⟨rfl, h⟩

theorem mem_keptRuns_iff : e ∈ keptRuns edges ↔ [e, e] <:+: edges := by
  rw [← confirmed_eq_keptRuns]
  cases edges with
  | nil => simp [confirmed]
  | cons first rest => exact mem_confirmedAfter_iff nofun

theorem mem_foldl_bump {t : Tally} (h : e ∈ t ∨ e ∈ edges) : e ∈ edges.foldl bump t := by
  induction edges generalizing t with
  | nil => exact h.resolve_right List.not_mem_nil
  | cons first rest ih =>
    refine ih ?_
    rw [bump, Std.TreeMap.mem_insert]
    rcases h with ht | hmem
    · exact .inl (.inr ht)
    · rcases List.mem_cons.mp hmem with rfl | hrest
      · exact .inl (.inl Std.ReflCmp.compare_self)
      · exact .inr hrest

theorem mem_ofList_iff : e ∈ ofList edges ↔ e ∈ edges :=
  ⟨mem_of_mem_ofList, fun h => mem_foldl_bump (.inr h)⟩

theorem getElem?_ofList (edges : List EdgeId) (e : EdgeId) :
    (ofList edges)[e]? = if e ∈ edges then some (UInt32.ofNat (edges.count e)) else none := by
  have hvalue := getD_ofList edges e
  rw [Std.TreeMap.getD_eq_getD_getElem?] at hvalue
  split
  · next hmem =>
    rw [← mem_ofList_iff, Std.TreeMap.mem_iff_isSome_getElem?] at hmem
    obtain ⟨n, hn⟩ := Option.isSome_iff_exists.mp hmem
    rw [hn] at hvalue ⊢
    exact congrArg some hvalue
  · next hmem =>
    rw [← mem_ofList_iff, Std.TreeMap.mem_iff_isSome_getElem?] at hmem
    exact Option.not_isSome_iff_eq_none.mp hmem

/-- The sum of all counts. -/
def total (t : Tally) : Nat :=
  (t.toList.map fun c => c.2.toNat).sum

theorem total_ofList_le (edges : List EdgeId) : (ofList edges).total ≤ edges.length := by
  have hkeys : (ofList edges).keys.toFinset ⊆ edges.toFinset := by
    intro e he
    rw [List.mem_toFinset, Std.TreeMap.mem_keys] at he
    exact List.mem_toFinset.mpr (mem_of_mem_ofList he)
  have hcount : ∀ c ∈ (ofList edges).toList, c.2.toNat ≤ edges.count c.1 := by
    rintro ⟨e, n⟩ hc
    rw [Std.TreeMap.mem_toList_iff_getElem?_eq_some, getElem?_ofList] at hc
    split at hc
    · cases hc
      rw [UInt32.toNat_ofNat']
      exact Nat.mod_le _ _
    · cases hc
  calc (ofList edges).total
      ≤ ((ofList edges).toList.map fun c => edges.count c.1).sum :=
        List.sum_le_sum hcount
    _ = ((ofList edges).keys.map (edges.count ·)).sum := by
        rw [← Std.TreeMap.map_fst_toList_eq_keys, List.map_map]
        rfl
    _ = ∑ e ∈ (ofList edges).keys.toFinset, edges.count e :=
        (List.sum_toFinset _ Std.TreeMap.nodup_keys).symm
    _ ≤ ∑ e ∈ edges.toFinset, edges.count e := Finset.sum_le_sum_of_subset hkeys
    _ = edges.length := List.sum_toFinset_count_eq_length edges

end Tally

namespace Snap.Matcher

open Tally (keptRuns)

variable {m : Matcher} {track track' : List Geo.Point}

/-- The edge nearest to a point, if it lies within reach. -/
def edgeAt? (m : Matcher) (p : Geo.Point) : Option EdgeId :=
  match m.locate p with
  | none => none
  | some hit => if hit.distance < m.reach then some hit.edge else none

/-- The edges within reach of the points of a track, in the order of the points. -/
def edgesAlong (m : Matcher) (track : List Geo.Point) : List EdgeId :=
  track.filterMap m.edgeAt?

theorem map_edge_touches (m : Matcher) (track : List Geo.Point) :
    (m.touches track).map Hit.edge = m.edgesAlong track := by
  rw [touches, List.map_filterMap, edgesAlong]
  congr 1
  funext p
  rw [touch?, edgeAt?]
  cases m.locate p with
  | none => rfl
  | some hit => by_cases h : hit.distance < m.reach <;> simp [Option.filter, h]

theorem tally_eq (m : Matcher) (track : List Geo.Point) :
    m.tally track = Tally.ofList (keptRuns (m.edgesAlong track)) := by
  rw [tally, map_edge_touches, Tally.ofTouches, Tally.confirmed_eq_keptRuns]

/-- Only the points within reach of an edge make the edges along a track. -/
theorem edgesAlong_filter (m : Matcher) (track : List Geo.Point) :
    m.edgesAlong (track.filter fun p => (m.edgeAt? p).isSome) = m.edgesAlong track := by
  rw [edgesAlong, List.filterMap_filter, edgesAlong]
  congr 1
  funext p
  cases m.edgeAt? p <;> rfl

/-- The tally of a track has exactly the edges of the kept runs along the track, each with their
number in 32 bits, which no track of less than twice as many touches as there are such numbers
exceeds. Points out of reach make no difference, wherever they are put in; an edge is counted
exactly if two touches in a row lie on it; and every count takes two touches of its own. -/
theorem tally_counts_runs (m : Matcher) (track : List Geo.Point) :
    let edges := m.edgesAlong track
    (∀ e, (m.tally track)[e]? =
      if e ∈ keptRuns edges then some (UInt32.ofNat ((keptRuns edges).count e)) else none) ∧
    (edges.length < 2 * UInt32.size →
      ∀ e, ((m.tally track).getD e 0).toNat = (keptRuns edges).count e) ∧
    (∀ track' : List Geo.Point,
      (track'.filter fun p => (m.edgeAt? p).isSome) =
        (track.filter fun p => (m.edgeAt? p).isSome) →
      m.tally track' = m.tally track) ∧
    (∀ e, 0 < (keptRuns edges).count e ↔ [e, e] <:+: edges) ∧
    2 * (m.tally track).total ≤ edges.length := by
  intro edges
  have htwo := Tally.two_mul_length_keptRuns edges
  refine ⟨fun e => ?_, fun hlen e => ?_, fun track' hsame => ?_, fun e => ?_, ?_⟩
  · rw [tally_eq]
    exact Tally.getElem?_ofList (keptRuns edges) e
  · have hshort : (keptRuns edges).length < UInt32.size := by omega
    rw [tally_eq]
    exact Tally.toNat_getD_ofList hshort e
  · rw [tally_eq, tally_eq, ← edgesAlong_filter m track', hsame, edgesAlong_filter]
  · rw [List.count_pos_iff, Tally.mem_keptRuns_iff]
  · have hle := Tally.total_ofList_le (keptRuns edges)
    rw [tally_eq]
    show 2 * (Tally.ofList (keptRuns edges)).total ≤ edges.length
    omega

/-- Edge 1 is touched twice, left for a lone touch of edge 2 and a point out of reach, and touched
twice again: this is one ride. A touch more of edge 2 makes it three. -/
theorem tally_of_returning_track :
    let m : Matcher := ⟨fun p => some ⟨p.lat.toUInt32, p.lon⟩, 5⟩
    ((m.tally [⟨1, 0⟩, ⟨1, 4⟩, ⟨2, 3⟩, ⟨2, 5⟩, ⟨1, 0⟩, ⟨1, 1⟩]).getD 1 0).toNat = 1 ∧
      ((m.tally [⟨1, 0⟩, ⟨1, 4⟩, ⟨2, 3⟩, ⟨2, 2⟩, ⟨1, 0⟩, ⟨1, 1⟩]).getD 1 0).toNat = 2 ∧
      m.tally [⟨1, 0⟩, ⟨1, 4⟩, ⟨2, 3⟩, ⟨2, 5⟩, ⟨1, 0⟩, ⟨1, 1⟩] =
        m.tally [⟨1, 0⟩, ⟨1, 4⟩, ⟨2, 3⟩, ⟨1, 0⟩, ⟨1, 1⟩] := by
  intro m
  obtain ⟨-, hcount, -⟩ :=
    tally_counts_runs m [⟨1, 0⟩, ⟨1, 4⟩, ⟨2, 3⟩, ⟨2, 5⟩, ⟨1, 0⟩, ⟨1, 1⟩]
  obtain ⟨-, hcount', -⟩ :=
    tally_counts_runs m [⟨1, 0⟩, ⟨1, 4⟩, ⟨2, 3⟩, ⟨2, 2⟩, ⟨1, 0⟩, ⟨1, 1⟩]
  obtain ⟨-, -, hstray, -⟩ := tally_counts_runs m [⟨1, 0⟩, ⟨1, 4⟩, ⟨2, 3⟩, ⟨1, 0⟩, ⟨1, 1⟩]
  have hedges : m.edgesAlong [⟨1, 0⟩, ⟨1, 4⟩, ⟨2, 3⟩, ⟨2, 5⟩, ⟨1, 0⟩, ⟨1, 1⟩] =
      [1, 1, 2, 1, 1] := by decide
  have hedges' : m.edgesAlong [⟨1, 0⟩, ⟨1, 4⟩, ⟨2, 3⟩, ⟨2, 2⟩, ⟨1, 0⟩, ⟨1, 1⟩] =
      [1, 1, 2, 2, 1, 1] := by decide
  have hfar : m.edgeAt? ⟨2, 5⟩ = none := by decide
  rw [hedges] at hcount
  rw [hedges'] at hcount'
  exact ⟨hcount (by decide) 1, hcount' (by decide) 1,
    hstray _ (by simp only [List.filter_cons, hfar, Option.isSome_none, Bool.false_eq_true,
      if_false])⟩

end Snap.Matcher

end Ridership
