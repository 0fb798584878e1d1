import Ridership.Network.Document
import Ridership.Snap.Index

/-!
# The edges that are located

The walk ends with one of the candidates that it was given, so a position is located on an edge of
the network only, and one with a valid point. A network whose document is accepted has an edge
count beyond the number of each of its edges, declared or not, so the number of a located edge lies
below it.
-/

namespace Ridership

namespace Snap

section

variable {σ α : Type} [Mul α] [LT α] [DecidableLT α] {plane distance : σ → α} {stretch d : α}
  {best : σ} {candidates : List σ} {found : σ × α}

theorem nearestFrom_mem :
    (nearestFrom plane distance stretch best d candidates).1 ∈ best :: candidates := by
  fun_induction nearestFrom plane distance stretch best d candidates with
  | case1 best d => exact List.mem_cons_self
  | case2 best d s rest => exact List.mem_cons_self
  | case3 best d s rest _ _ _ ih => exact List.mem_cons_of_mem _ ih
  | case4 best d s rest _ _ _ ih =>
    rcases List.mem_cons.mp ih with h | h
    · exact List.mem_cons.mpr (.inl h)
    · exact List.mem_cons_of_mem _ (List.mem_cons_of_mem _ h)

theorem mem_of_nearest? (h : nearest? plane distance stretch candidates = some found) :
    found.1 ∈ candidates := by
  cases candidates with
  | nil => cases h
  | cons s rest =>
    cases h
    exact nearestFrom_mem

end

namespace Index

variable {ix : Index} {edges : List Edge} {p : Geo.Point} {hit : Hit}

theorem mem_of_locate (h : ix.locate p = some hit) : ∃ s ∈ ix.segments, s.edge = hit.edge := by
  obtain ⟨⟨⟨s, planeSq⟩, d⟩, hnearest, rfl⟩ := Option.map_eq_some_iff.mp h
  have hmem := mem_of_nearest? hnearest
  rw [byDistance, List.mem_mergeSort] at hmem
  obtain ⟨s', hs', heq⟩ := List.mem_map.mp hmem
  cases heq
  exact ⟨s, hs', rfl⟩

/-- A position is located on an edge of the network. -/
theorem edge_of_locate (h : (ofEdges edges).locate p = some hit) :
    ∃ e ∈ edges, e.id = hit.edge ∧ e.validPoints ≠ [] := by
  obtain ⟨s, hs, hid⟩ := mem_of_locate h
  obtain ⟨e, he, hs⟩ := List.mem_flatMap.mp hs
  obtain ⟨⟨a, b⟩, hjoint, rfl⟩ := List.mem_map.mp hs
  refine ⟨e, he, hid, fun hnone => ?_⟩
  rw [hnone] at hjoint
  cases hjoint

end Index

end Snap

namespace Network

variable {n : Network} {e : Edge} {d : Disk} {path : String}

theorem id_lt_usedCount (h : e ∈ n.edges) : e.id.toNat < n.usedCount := by
  have hmem : e.id.toNat + 1 ∈ n.edges.map (·.id.toNat + 1) := List.mem_map_of_mem h
  have hle := List.le_max?_getD_of_mem (k := 0) hmem
  rw [usedCount, List.foldl_max]
  omega

theorem checked_eq_ok {m : Network} (h : m.checked path = .ok n) :
    m = n ∧ n.usedCount ≤ n.edgeCount := by
  unfold checked at h
  unfold edgeCount
  split at h
  · next hnone =>
    cases h
    rw [hnone]
    exact ⟨rfl, Nat.le_refl _⟩
  · next count hsome =>
    split at h
    · cases h
    · next hle =>
      cases h
      rw [hsome]
      exact ⟨rfl, Nat.le_of_not_lt hle⟩

/-- A network that is loaded is what its document says, and has passed the check. -/
theorem checked_of_load (h : load d path = .ok n) :
    ∃ bytes, d.read path = .ok bytes ∧ (Json.Tree.ofBytes bytes).bind ofTree = .ok n ∧
      n.checked path = .ok n := by
  unfold load at h
  split at h
  · cases h
  · cases h
  · next bytes hread =>
    split at h
    · cases h
    · next m hparsed =>
      obtain ⟨rfl, -⟩ := checked_eq_ok h
      exact ⟨bytes, hread, hparsed, h⟩

/-- The documents that are accepted declare enough edges for the numbers they use. -/
theorem usedCount_le_of_load (h : load d path = .ok n) : n.usedCount ≤ n.edgeCount := by
  obtain ⟨-, -, -, hchecked⟩ := checked_of_load h
  exact (checked_eq_ok hchecked).2

/-- On a network that was accepted only edges below the edge count are located. -/
theorem locate_lt_edgeCount (h : load d path = .ok n) {p : Geo.Point} {hit : Snap.Hit}
    (hlocate : (Snap.Index.ofEdges n.edges).locate p = some hit) :
    hit.edge.toNat < n.edgeCount := by
  obtain ⟨e, he, hid, -⟩ := Snap.Index.edge_of_locate hlocate
  rw [← hid]
  exact Nat.lt_of_lt_of_le (id_lt_usedCount he) (usedCount_le_of_load h)

end Network

end Ridership
