import Ridership.Proofs.Build.Filling
import Ridership.Proofs.Store.History

/-!
# Joining edges to ways

A store is filled from a table of way popularities edge by edge, and what the summary says agrees
with the counters at every edge. The edges are those below the number of edges as a 32-bit number,
which is zero for a network that uses every edge number: its store keeps its zeros.
-/

namespace Ridership.Build.Source

open Store (Recounts)

variable {edges : Way.EdgeMap} {table : Way.Table} {store : Store} {n k : Nat}

/-- Every edge of a way that the table has carries the popularity of the way, and every other edge
carries nothing. -/
structure Joined (edges : Way.EdgeMap) (table : Way.Table) (records : Array UInt32) : Prop where
  rated : ∀ e : EdgeId, ∀ h : e.toNat < records.size, ∀ way popularity,
    edges[e]? = some way → table[way]? = some popularity → records[e.toNat] = popularity
  unrated : ∀ e : EdgeId, ∀ h : e.toNat < records.size,
    (∀ way, edges[e]? = some way → table[way]? = none) → records[e.toNat] = 0

theorem popularityOf_rated {e : EdgeId} {way : Way.WayId} {popularity : UInt32}
    (hway : edges[e]? = some way) (hrated : table[way]? = some popularity) :
    popularityOf edges table e = popularity := by
  simp only [popularityOf, hway]
  rw [Std.TreeMap.getD_eq_getD_getElem?, hrated]
  rfl

theorem popularityOf_unrated {e : EdgeId}
    (h : ∀ way, edges[e]? = some way → table[way]? = none) : popularityOf edges table e = 0 := by
  unfold popularityOf
  split
  · rfl
  · next way hway =>
    rw [Std.TreeMap.getD_eq_getD_getElem?, h way hway]
    rfl

theorem joined_iff {records : Array UInt32} : Joined edges table records ↔
    ∀ e : EdgeId, ∀ h : e.toNat < records.size, records[e.toNat] = popularityOf edges table e := by
  constructor
  · intro hj e h
    cases hway : edges[e]? with
    | none =>
      have hun : ∀ way, edges[e]? = some way → table[way]? = none := by
        intro way hsome
        rw [hway] at hsome
        cases hsome
      rw [hj.unrated e h hun, popularityOf_unrated hun]
    | some way =>
      cases hrated : table[way]? with
      | none =>
        have hun : ∀ way', edges[e]? = some way' → table[way']? = none := by
          intro way' hsome
          rw [hway] at hsome
          cases hsome
          exact hrated
        rw [hj.unrated e h hun, popularityOf_unrated hun]
      | some popularity =>
        rw [hj.rated e h way popularity hway hrated, popularityOf_rated hway hrated]
  · intro hp
    refine ⟨fun e h way popularity hway hrated => ?_, fun e h hun => ?_⟩
    · rw [hp e h, popularityOf_rated hway hrated]
    · rw [hp e h, popularityOf_unrated hun]

/-! ## Edge by edge -/

/-- The counters of a store of `n` edges when the edges below `k` have been joined. -/
def joinedTo (edges : Way.EdgeMap) (table : Way.Table) (n k : Nat) : List UInt32 :=
  (List.range k).map (fun e => popularityOf edges table (UInt32.ofNat e)) ++
    List.replicate (n - k) 0

/-- The summary of a table that was joined to these counters. -/
def summaryOf (records : List UInt32) : Summary :=
  { total := 1
    merged := 1
    increments := (records.map UInt32.toNat).sum
    ridden := records.countP (0 < ·) }

theorem length_joinedTo (hk : k ≤ n) : (joinedTo edges table n k).length = n := by
  rw [joinedTo, List.length_append, List.length_map, List.length_range, List.length_replicate]
  omega

theorem joinedTo_of_lt (hk : k < n) : joinedTo edges table n k =
    (List.range k).map (fun e => popularityOf edges table (UInt32.ofNat e)) ++
      0 :: List.replicate (n - (k + 1)) 0 := by
  have hrest : n - k = n - (k + 1) + 1 := by omega
  rw [joinedTo, hrest, List.replicate_succ]

theorem joinedTo_succ : joinedTo edges table n (k + 1) =
    (List.range k).map (fun e => popularityOf edges table (UInt32.ofNat e)) ++
      popularityOf edges table (UInt32.ofNat k) :: List.replicate (n - (k + 1)) 0 := by
  rw [joinedTo, List.range_succ, List.map_append, List.append_assoc]
  rfl

theorem set_joinedTo (hk : k < n) : (joinedTo edges table n k).set k
    (popularityOf edges table (UInt32.ofNat k)) = joinedTo edges table n (k + 1) := by
  rw [joinedTo_of_lt hk, joinedTo_succ, List.set_append_right _ _ (by simp)]
  simp

theorem summaryOf_zeros (n : Nat) :
    summaryOf (List.replicate n 0) = { total := 1, merged := 1 } := by
  simp [summaryOf]

/-- A counter that is set where there was a zero goes into the summary. -/
theorem summaryOf_append_cons (before after : List UInt32) {x : UInt32} (hx : x ≠ 0) :
    summaryOf (before ++ x :: after) =
      { summaryOf (before ++ 0 :: after) with
        increments := (summaryOf (before ++ 0 :: after)).increments + x.toNat
        ridden := (summaryOf (before ++ 0 :: after)).ridden + 1 } := by
  have hpos : 0 < x := UInt32.pos_iff_ne_zero.mpr hx
  have hsum : ((before ++ x :: after).map UInt32.toNat).sum =
      ((before ++ 0 :: after).map UInt32.toNat).sum + x.toNat := by
    simp only [List.map_append, List.map_cons, List.sum_append, List.sum_cons, UInt32.toNat_zero]
    omega
  have hcount : (before ++ x :: after).countP (0 < ·) =
      (before ++ 0 :: after).countP (0 < ·) + 1 := by
    simp [List.countP_append, hpos, Nat.add_assoc]
  simp only [summaryOf, hsum, hcount]

/-- A step of the joining: the next edge gets the popularity of its way. -/
theorem joinEdge_joinedTo (hw : store.readOnly = false) (hn : n ≤ UInt32.size) (hk : k < n) :
    joinEdge edges table
        ({ store with records := (joinedTo edges table n k).toArray },
          summaryOf (joinedTo edges table n k)) (UInt32.ofNat k) =
      .ok ({ store with records := (joinedTo edges table n (k + 1)).toArray },
        summaryOf (joinedTo edges table n (k + 1))) := by
  have hid : (UInt32.ofNat k).toNat = k := UInt32.toNat_ofNat_of_lt (Nat.lt_of_lt_of_le hk hn)
  by_cases hzero : popularityOf edges table (UInt32.ofNat k) = 0
  · have hsame : joinedTo edges table n (k + 1) = joinedTo edges table n k := by
      rw [joinedTo_succ, joinedTo_of_lt hk, hzero]
    simp only [joinEdge, hzero, if_true, hsame]
  · have hlt : (UInt32.ofNat k).toNat < (joinedTo edges table n k).toArray.size := by
      rw [hid, List.size_toArray, length_joinedTo (Nat.le_of_lt hk)]
      exact hk
    have hset := Store.set_of_lt (s := { store with records := (joinedTo edges table n k).toArray })
      (n := popularityOf edges table (UInt32.ofNat k)) hw hlt
    have hsummary : summaryOf (joinedTo edges table n (k + 1)) =
        { summaryOf (joinedTo edges table n k) with
          increments := (summaryOf (joinedTo edges table n k)).increments +
            (popularityOf edges table (UInt32.ofNat k)).toNat
          ridden := (summaryOf (joinedTo edges table n k)).ridden + 1 } := by
      rw [joinedTo_succ, joinedTo_of_lt hk]
      exact summaryOf_append_cons _ _ hzero
    simp only [joinEdge, hzero, if_false, hset, Except.map, hid, List.setIfInBounds_toArray,
      set_joinedTo hk, hsummary]

/-- The edges below `k` are joined one after another. -/
theorem foldlM_joinEdge (hw : store.readOnly = false) (hzeros : store.records = Array.replicate n 0)
    (hn : n ≤ UInt32.size) (hk : k ≤ n) :
    (List.range k).foldlM (fun acc e => joinEdge edges table acc (UInt32.ofNat e))
        (store, { total := 1, merged := 1 }) =
      .ok ({ store with records := (joinedTo edges table n k).toArray },
        summaryOf (joinedTo edges table n k)) := by
  induction k with
  | zero =>
    have hstart : joinedTo edges table n 0 = List.replicate n 0 := rfl
    rw [hstart, summaryOf_zeros, List.toArray_replicate, ← hzeros]
    rfl
  | succ k ih =>
    rw [List.range_succ, List.foldlM_append, ih (Nat.le_of_lt hk)]
    show joinEdge edges table _ _ >>= pure = _
    rw [joinEdge_joinedTo hw hn hk]
    rfl

/-! ## All edges -/

/-- The sum of counters fits 64 bits as long as there are no more of them than edge numbers. -/
theorem sum_records_lt {records : List UInt32} (h : records.length ≤ UInt32.size) :
    (records.map UInt32.toNat).sum < UInt64.size := by
  calc (records.map UInt32.toNat).sum
      ≤ records.length * maxCount := sum_counts_le records
    _ ≤ UInt32.size * maxCount := Nat.mul_le_mul_right _ h
    _ < UInt64.size := by decide

/-- What the joining makes of a new store. -/
theorem joinWays_eq (hfresh : store.Fresh n) :
    joinWays edges table store =
      .ok ({ store with records := (joinedTo edges table n (n % UInt32.size)).toArray },
        summaryOf (joinedTo edges table n (n % UInt32.size))) := by
  have hcount : store.edgeCount = n := hfresh.size_eq
  rw [joinWays, hcount]
  exact foldlM_joinEdge hfresh.writable hfresh.zeros hfresh.bounded (Nat.mod_le n _)

/-- A store that uses every edge number is left as it is. -/
theorem joinWays_all_numbers (hfresh : store.Fresh UInt32.size) :
    joinWays edges table store = .ok (store, { total := 1, merged := 1 }) := by
  have hstart : joinedTo edges table UInt32.size 0 = List.replicate UInt32.size 0 := rfl
  rw [joinWays_eq hfresh, Nat.mod_self, hstart, summaryOf_zeros, List.toArray_replicate,
    ← hfresh.zeros]

theorem joinedTo_congr {edges' : Way.EdgeMap} (hk : k ≤ n) (hn : n ≤ UInt32.size)
    (h : ∀ e : EdgeId, e.toNat < n → edges'[e]? = edges[e]?) :
    joinedTo edges' table n k = joinedTo edges table n k := by
  unfold joinedTo
  congr 1
  refine List.map_congr_left fun e he => ?_
  have hlt : e < n := Nat.lt_of_lt_of_le (List.mem_range.mp he) hk
  have hid : (UInt32.ofNat e).toNat = e := UInt32.toNat_ofNat_of_lt (Nat.lt_of_lt_of_le hlt hn)
  simp only [popularityOf, h (UInt32.ofNat e) (by rw [hid]; exact hlt)]

/-- All edges have been joined unless every edge number is in use. -/
theorem joined_all_iff (hn : n ≤ UInt32.size) :
    Joined edges table (joinedTo edges table n (n % UInt32.size)).toArray ↔
      n < UInt32.size ∨ ∀ e, popularityOf edges table e = 0 := by
  rw [joined_iff]
  by_cases hlt : n < UInt32.size
  · simp only [hlt, true_or, iff_true]
    rw [Nat.mod_eq_of_lt hlt]
    intro e h
    have hid : UInt32.ofNat e.toNat = e := UInt32.ofNat_toNat
    have he : e.toNat < n := by
      rw [List.size_toArray, length_joinedTo (Nat.le_refl n)] at h
      exact h
    simp [joinedTo, hid]
  · obtain rfl : n = UInt32.size := Nat.le_antisymm hn (Nat.le_of_not_lt hlt)
    simp only [Nat.lt_irrefl, false_or, Nat.mod_self]
    have hzeros : joinedTo edges table UInt32.size 0 = List.replicate UInt32.size 0 := rfl
    constructor
    · intro hj e
      have he : e.toNat < (joinedTo edges table UInt32.size 0).toArray.size := by
        rw [List.size_toArray, hzeros, List.length_replicate]
        exact e.toNat_lt
      rw [← hj e he]
      simp [hzeros]
    · intro hzero e h
      rw [hzero e]
      simp [hzeros]

theorem fillFromWays_of_joinWays {d : Disk} {file : String} {filled : Store} {summary : Summary}
    (hload : Way.Table.load d file = .ok table)
    (hjoin : joinWays edges table store = .ok (filled, summary)) :
    fillFromWays d file edges store = ([.finished summary], .ok (filled, summary)) := by
  simp only [fillFromWays, hload, hjoin]

/-- A new store is filled from any table, the summary has the number of its counters that are not
zero and their sum, and the ways of edges that the network does not have make no difference. The
edges get the popularity of their ways exactly if the network leaves an edge number unused, or no
edge has a popularity to get. -/
theorem edges_joined_iff {d d' : Disk} {path : String} {network : Extent}
    (hcreate : Store.create d path network = (d', .ok store)) (edges : Way.EdgeMap)
    (table : Way.Table) :
    ∃ (records : Array UInt32) (summary : Summary),
      joinWays edges table store = .ok ({ store with records }, summary) ∧
      (∀ disk file, Way.Table.load disk file = .ok table →
        fillFromWays disk file edges store =
          ([.finished summary], .ok ({ store with records }, summary))) ∧
      records.size = network.edgeCount ∧
      summary.ridden = records.toList.countP (0 < ·) ∧
      summary.increments = (records.toList.map UInt32.toNat).sum ∧
      summary.increments < UInt64.size ∧
      (∀ edges' : Way.EdgeMap, (∀ e : EdgeId, e.toNat < network.edgeCount →
        edges'[e]? = edges[e]?) → joinWays edges' table store = joinWays edges table store) ∧
      (Joined edges table records ↔
        network.edgeCount < UInt32.size ∨ ∀ e, popularityOf edges table e = 0) := by
  have hfresh := Store.fresh_of_create hcreate
  have hjoin : joinWays edges table store = _ := joinWays_eq hfresh
  have hlength : (joinedTo edges table network.edgeCount
      (network.edgeCount % UInt32.size)).length = network.edgeCount :=
    length_joinedTo (Nat.mod_le _ _)
  refine ⟨_, _, hjoin, fun disk file hload => fillFromWays_of_joinWays hload hjoin, hlength, rfl,
    rfl, ?_, fun edges' hsame => ?_, joined_all_iff hfresh.bounded⟩
  · exact sum_records_lt (hlength.symm ▸ hfresh.bounded)
  · rw [joinWays_eq hfresh, hjoin, joinedTo_congr (Nat.mod_le _ _) hfresh.bounded hsame]

/-- Of three edges one lies on a way with a popularity, and so does an edge that the network does
not have. -/
theorem edges_joined_of_three :
    ∃ records summary,
      joinWays (Way.EdgeMap.ofPairs [(1, 5), (2, 6), (9, 5)]) ((∅ : Way.Table).insert 5 7)
          ⟨"index", 0, Array.replicate 3 0, false⟩ = .ok (⟨"index", 0, records, false⟩, summary) ∧
        records = #[0, 7, 0] ∧ summary.increments = 7 ∧ summary.ridden = 1 := by
  obtain ⟨records, summary, hjoin, -, hsize, hridden, hincrements, -, -, hjoined⟩ :=
    edges_joined_iff (Store.create_soleFile (n := 3) [] (by decide))
      (Way.EdgeMap.ofPairs [(1, 5), (2, 6), (9, 5)]) ((∅ : Way.Table).insert 5 7)
  have hj := hjoined.mpr (.inl (by decide))
  have hlt : ∀ e, e < 3 → e < records.size := fun e he => hsize ▸ he
  have hrecords : records = #[0, 7, 0] := by
    refine Array.ext hsize fun i hi _ => ?_
    rw [hsize] at hi
    match i, hi with
    | 0, _ => exact hj.unrated 0 (hlt 0 (by decide)) nofun
    | 1, _ => exact hj.rated 1 (hlt 1 (by decide)) 5 7 rfl rfl
    | 2, _ => exact hj.unrated 2 (hlt 2 (by decide)) fun way hway => by cases hway; rfl
  subst hrecords
  exact ⟨_, summary, hjoin, rfl, hincrements, hridden⟩

/-- Where every edge number is in use, no edge is joined: the way of edge 0 has a popularity, but
its counter stays at zero. -/
theorem no_edge_joined_of_all_numbers :
    ∃ d' store, Store.create (Index.soleFile []) "index" ⟨UInt32.size, false⟩ = (d', .ok store) ∧
      joinWays (Way.EdgeMap.ofPairs [(0, 5)]) ((∅ : Way.Table).insert 5 7) store =
        .ok (store, { total := 1, merged := 1 }) ∧
      ¬Joined (Way.EdgeMap.ofPairs [(0, 5)]) ((∅ : Way.Table).insert 5 7) store.records := by
  have hcreate := Store.create_soleFile (n := UInt32.size) [] (Nat.le_refl _)
  refine ⟨_, _, hcreate, joinWays_all_numbers (Store.fresh_of_create hcreate), fun hj => ?_⟩
  have hzero : (0 : EdgeId).toNat < (Array.replicate UInt32.size (0 : UInt32)).size := by
    rw [Array.size_replicate]
    decide
  have hseven := hj.rated 0 hzero 5 7 rfl rfl
  rw [Array.getElem_replicate] at hseven
  cases hseven

end Ridership.Build.Source
