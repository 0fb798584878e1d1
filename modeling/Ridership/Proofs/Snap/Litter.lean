import Mathlib.Algebra.GroupWithZero.Nat
import Ridership.Snap.Index

/-!
# Invalid points leave no trace

The points of a network are used three times when it is cut into segments: for the latitude that the
projection is around, for the bound on the stretch, and for the segments of each edge. All three
keep to the valid points, so a network may be littered with invalid ones, and with edges that have
no others, and its index is the same. What the index has for an edge are its consecutive valid
points, or the single one that it has.
-/

namespace Ridership.Snap

open Ridership.Geo (Point)

/-! ## Litter -/

/-- The second list has more points, none of them valid. -/
inductive Strewn : List Point → List Point → Prop
  | nil : Strewn [] []
  | keep (p : Point) {l l' : List Point} : Strewn l l' → Strewn (p :: l) (p :: l')
  | stray (p : Point) {l l' : List Point} : p.isValid = false → Strewn l l' → Strewn l (p :: l')

/-- The second list has more edges, none of them with a valid point, and more points on the edges of
the first, none of them valid. -/
inductive Littered : List Edge → List Edge → Prop
  | nil : Littered [] []
  | keep (id : EdgeId) {points points' : List Point} {edges edges' : List Edge} :
      Strewn points points' → Littered edges edges' →
      Littered (⟨id, points⟩ :: edges) (⟨id, points'⟩ :: edges')
  | stray (e : Edge) {edges edges' : List Edge} : (∀ p ∈ e.points, p.isValid = false) →
      Littered edges edges' → Littered edges (e :: edges')

variable {l l' : List Point} {edges edges' : List Edge} {a b : Point}

theorem Strewn.filter_isValid (h : Strewn l l') :
    l'.filter Point.isValid = l.filter Point.isValid := by
  induction h with
  | nil => rfl
  | keep p _ ih => rw [List.filter_cons, List.filter_cons, ih]
  | stray p hp _ ih => rw [List.filter_cons_of_neg (by simp [hp]), ih]

/-- What is collected from the valid points of each edge is collected without the litter. -/
theorem Littered.flatMap_eq {γ : Type} {collect : Edge → List γ} (h : Littered edges edges')
    (hsame : ∀ e e', e.id = e'.id → e.validPoints = e'.validPoints → collect e = collect e')
    (hnone : ∀ e, e.validPoints = [] → collect e = []) :
    edges'.flatMap collect = edges.flatMap collect := by
  induction h with
  | nil => rfl
  | @keep id points points' _ _ hpoints _ ih =>
    rw [List.flatMap_cons, List.flatMap_cons, ih,
      hsame ⟨id, points'⟩ ⟨id, points⟩ rfl hpoints.filter_isValid]
  | stray e hpoints _ ih =>
    have hempty : e.validPoints = [] :=
      List.filter_eq_nil_iff.mpr fun p hp => by simp [hpoints p hp]
    rw [List.flatMap_cons, hnone e hempty, List.nil_append, ih]

theorem Index.ofEdges_of_littered (h : Littered edges edges') :
    ofEdges edges' = ofEdges edges := by
  have hpoints : edges'.flatMap Edge.validPoints = edges.flatMap Edge.validPoints :=
    h.flatMap_eq (fun _ _ _ hvalid => hvalid) fun _ hvalid => hvalid
  have hsegments : ∀ m, edges'.flatMap (segmentsOf m) = edges.flatMap (segmentsOf m) := fun m =>
    h.flatMap_eq (fun e e' hid hvalid => by rw [segmentsOf, hid, hvalid, segmentsOf])
      fun e hvalid => by rw [segmentsOf, hvalid, joints, List.map_nil]
  simp only [ofEdges, hpoints, hsegments]

/-! ## Segments -/

theorem length_joints (l : List Point) :
    (joints l).length = if 1 ≤ l.length then max 1 (l.length - 1) else 0 := by
  match l with
  | [] => rfl
  | [p] => rfl
  | p :: q :: rest =>
    simp only [joints, List.length_zip, List.length_cons]
    split <;> omega

theorem mem_zip_tail_iff (p : Point) (l : List Point) :
    (a, b) ∈ (p :: l).zip l ↔ [a, b] <:+: p :: l := by
  induction l generalizing p with
  | nil => simp [List.infix_cons_iff]
  | cons q rest ih =>
    have hsplit : [a, b] <:+: p :: q :: rest ↔
        [a, b] <+: p :: q :: rest ∨ [a, b] <:+: q :: rest := List.infix_cons_iff
    rw [List.zip_cons_cons, List.mem_cons, ih, hsplit, List.cons_prefix_cons,
      List.cons_prefix_cons, Prod.mk.injEq]
    simp

/-- The joints of a list of points are its consecutive points, or the single one twice. -/
theorem mem_joints_iff : (a, b) ∈ joints l ↔ [a, b] <:+: l ∨ l = [a] ∧ b = a := by
  match l with
  | [] => simp [joints]
  | [p] =>
    simp only [joints, List.mem_singleton, Prod.mk.injEq, List.infix_cons_iff]
    constructor
    · rintro ⟨rfl, rfl⟩
      exact .inr ⟨rfl, rfl⟩
    · rintro (h | ⟨h, rfl⟩)
      · simp at h
      · exact ⟨(List.singleton_inj.mp h).symm, (List.singleton_inj.mp h).symm⟩
  | p :: q :: rest =>
    have hlong : ¬(p :: q :: rest = [a] ∧ b = a) := nofun
    rw [or_iff_left hlong]
    exact mem_zip_tail_iff p (q :: rest)

theorem Index.length_segments (edges : List Edge) :
    (ofEdges edges).segments.length =
      ((edges.filter fun e => 1 ≤ e.validPoints.length).map fun e =>
        max 1 (e.validPoints.length - 1)).sum := by
  show (edges.flatMap (segmentsOf _)).length = _
  generalize Geo.Projection.around (Point.mean (edges.flatMap Edge.validPoints)).lat = m
  induction edges with
  | nil => rfl
  | cons e rest ih =>
    rw [List.flatMap_cons, List.length_append, ih, segmentsOf, List.length_map, length_joints,
      List.filter_cons]
    by_cases h : 1 ≤ e.validPoints.length <;> simp [h]

theorem Index.mem_segments_iff {s : Segment} :
    s ∈ (ofEdges edges).segments ↔
      ∃ e ∈ edges, s.edge = e.id ∧
        ([s.start, s.stop] <:+: e.validPoints ∨ e.validPoints = [s.start] ∧ s.stop = s.start) ∧
        s.piece = ⟨(ofEdges edges).projection.toPlane s.start,
          (ofEdges edges).projection.toPlane s.stop⟩ := by
  show s ∈ edges.flatMap (segmentsOf (ofEdges edges).projection) ↔ _
  generalize (ofEdges edges).projection = m
  rw [List.mem_flatMap]
  constructor
  · rintro ⟨e, he, hs⟩
    obtain ⟨⟨a, b⟩, hjoint, rfl⟩ := List.mem_map.mp hs
    exact ⟨e, he, rfl, mem_joints_iff.mp hjoint, rfl⟩
  · rintro ⟨e, he, hid, hjoint, hpiece⟩
    obtain ⟨id, a, b, piece⟩ := s
    refine ⟨e, he, List.mem_map.mpr ⟨(a, b), mem_joints_iff.mpr hjoint, ?_⟩⟩
    simp only at hid hpiece
    rw [hid, hpiece]

/-- However a network is littered, its index has the same segments in the same order, the same
projection and the same bound on the stretch, and locates every position as before. For each edge
it has one segment less than valid points, or one for a single point, and a segment joins two
consecutive valid points of its edge, or that single point to itself. -/
theorem Index.litter_invisible (edges : List Edge) :
    (∀ littered, Littered edges littered →
      (ofEdges littered).segments = (ofEdges edges).segments ∧
      (ofEdges littered).projection = (ofEdges edges).projection ∧
      (ofEdges littered).minStretch = (ofEdges edges).minStretch ∧
      ∀ p, (ofEdges littered).locate p = (ofEdges edges).locate p) ∧
    (ofEdges edges).segments.length =
      ((edges.filter fun e => 1 ≤ e.validPoints.length).map fun e =>
        max 1 (e.validPoints.length - 1)).sum ∧
    ∀ s, s ∈ (ofEdges edges).segments ↔
      ∃ e ∈ edges, s.edge = e.id ∧
        ([s.start, s.stop] <:+: e.validPoints ∨ e.validPoints = [s.start] ∧ s.stop = s.start) ∧
        s.piece = ⟨(ofEdges edges).projection.toPlane s.start,
          (ofEdges edges).projection.toPlane s.stop⟩ := by
  refine ⟨fun littered h => ?_, length_segments edges, fun s => mem_segments_iff⟩
  rw [ofEdges_of_littered h]
  exact ⟨rfl, rfl, rfl, fun _ => rfl⟩

/-- A point beyond the pole splits a polyline, one that is not a number ends another, and an edge
has no other points. -/
theorem Index.litter_of_two_edges :
    let edges : List Edge := [⟨4, [⟨45, 10⟩, ⟨46, 10⟩, ⟨46, 11⟩]⟩, ⟨7, [⟨44, 12⟩]⟩]
    let littered : List Edge := [⟨9, [⟨0, 181⟩]⟩, ⟨4, [⟨45, 10⟩, ⟨90.5, 10⟩, ⟨46, 10⟩, ⟨46, 11⟩]⟩,
      ⟨9, []⟩, ⟨7, [⟨44, 12⟩, ⟨0 / 0, 12⟩]⟩]
    Littered edges littered ∧ (ofEdges littered).segments.length = 3 ∧
      ∀ p, (ofEdges littered).locate p = (ofEdges edges).locate p := by
  intro edges littered
  have hlittered : Littered edges littered :=
    .stray _ (by decide +kernel) <|
      .keep 4 (.keep _ <| .stray _ (by decide +kernel) <| .keep _ <| .keep _ .nil) <|
      .stray _ (by decide +kernel) <|
      .keep 7 (.keep _ <| .stray _ (by decide +kernel) .nil) .nil
  obtain ⟨hinvisible, hlength, -⟩ := litter_invisible edges
  obtain ⟨hsegments, -, -, hlocate⟩ := hinvisible littered hlittered
  refine ⟨hlittered, ?_, hlocate⟩
  rw [hsegments, hlength]
  decide +kernel

end Ridership.Snap
