import Ridership.Proofs.Double.Arithmetic
import Ridership.Proofs.Snap.Locating

/-!
# What the early stop may miss

The walk over the segments is compared with a scan of all of them. Distances on the sphere and the
stretch of a latitude are taken as they come, so that everything holds of any way to compute them,
the one that is used included; distances in the plane are those of the index. The walk passes over
a segment only when its distance in the plane times the stretch exceeds the distance that is
returned. Nothing is said here about how far the product lies below the distance on the sphere;
where it never lies above, nothing nearer is missed.
-/

namespace Ridership.Snap

open Ridership.Geo (Piece Point Projection)

/-! ## The walk -/

section

variable {σ τ : Type} {plane distance : σ → Float} {stretch d : Float} {best s t : σ}
  {candidates : List σ}

/-- The measurements of a candidate that the walk can compare. -/
structure Measured (plane distance : σ → Float) (stretch : Float) (s : σ) : Prop where
  plane_nonneg : 0 ≤ plane s
  distance_number : (distance s).isNaN = false
  bound_number : (plane s * stretch).isNaN = false

/-- A distance accounts for a candidate that is no nearer, or whose bound is larger. -/
def AccountsFor (plane distance : σ → Float) (stretch d : Float) (s : σ) : Prop :=
  d ≤ distance s ∨ d < plane s * stretch

/-- The first candidate whose bound is larger than a distance ends the walk: the bounds of those
behind it are larger as well. -/
theorem accountsFor_behind (hstretch : 0 ≤ stretch) (hs : Measured plane distance stretch s)
    (ht : Measured plane distance stretch t) (hle : plane s ≤ plane t)
    (hd : d < plane s * stretch) : AccountsFor plane distance stretch d t :=
  .inr (Double.lt_of_lt_of_le hd
    (Double.mul_le_mul_right hs.plane_nonneg hstretch hs.bound_number ht.bound_number hle))

/-- From any candidate on, the walk returns the distance of a candidate, which is no larger than
the one it began with and accounts for all candidates behind. -/
theorem nearestFrom_accountsFor (hstretch : 0 ≤ stretch) (hbest : d = distance best)
    (hd : d.isNaN = false) (hmeasured : ∀ s ∈ candidates, Measured plane distance stretch s)
    (hsorted : candidates.Pairwise fun s t => plane s ≤ plane t) :
    (nearestFrom plane distance stretch best d candidates).2 =
        distance (nearestFrom plane distance stretch best d candidates).1 ∧
      (nearestFrom plane distance stretch best d candidates).2 ≤ d ∧
      ∀ s ∈ candidates, AccountsFor plane distance stretch
        (nearestFrom plane distance stretch best d candidates).2 s := by
  fun_induction nearestFrom plane distance stretch best d candidates with
  | case1 best d => exact ⟨hbest, Double.le_self hd, List.forall_mem_nil _⟩
  | case2 best d s rest hstop =>
    obtain ⟨hbehind, -⟩ := List.pairwise_cons.mp hsorted
    have hs := hmeasured s List.mem_cons_self
    refine ⟨hbest, Double.le_self hd, fun t ht => ?_⟩
    rcases List.mem_cons.mp ht with rfl | ht
    · exact .inr hstop
    · have ht' := hmeasured t (List.mem_cons_of_mem _ ht)
      exact accountsFor_behind hstretch hs ht' (hbehind t ht) hstop
  | case3 best d s rest _ d' hcloser ih =>
    have hs := (hmeasured s List.mem_cons_self).distance_number
    obtain ⟨hdistance, hle, hrest⟩ := ih rfl hs
      (fun t ht => hmeasured t (List.mem_cons_of_mem _ ht)) (List.pairwise_cons.mp hsorted).2
    refine ⟨hdistance, Double.le_trans hle (Double.le_of_lt hcloser), fun t ht => ?_⟩
    rcases List.mem_cons.mp ht with rfl | ht
    · exact .inl hle
    · exact hrest t ht
  | case4 best d s rest _ d' hfarther ih =>
    have hs := (hmeasured s List.mem_cons_self).distance_number
    obtain ⟨hdistance, hle, hrest⟩ := ih hbest hd
      (fun t ht => hmeasured t (List.mem_cons_of_mem _ ht)) (List.pairwise_cons.mp hsorted).2
    refine ⟨hdistance, hle, fun t ht => ?_⟩
    rcases List.mem_cons.mp ht with rfl | ht
    · exact .inl (Double.le_trans hle (Double.le_of_not_lt hs hd hfarther))
    · exact hrest t ht

theorem nearest?_accountsFor {found : σ × Float} (hstretch : 0 ≤ stretch)
    (hmeasured : ∀ s ∈ candidates, Measured plane distance stretch s)
    (hsorted : candidates.Pairwise fun s t => plane s ≤ plane t)
    (h : nearest? plane distance stretch candidates = some found) :
    found.2 = distance found.1 ∧
      ∀ s ∈ candidates, AccountsFor plane distance stretch found.2 s := by
  cases candidates with
  | nil => cases h
  | cons s rest =>
    cases h
    have hs := (hmeasured s List.mem_cons_self).distance_number
    obtain ⟨hdistance, hle, hrest⟩ := nearestFrom_accountsFor hstretch rfl hs
      (fun t ht => hmeasured t (List.mem_cons_of_mem _ ht)) (List.pairwise_cons.mp hsorted).2
    refine ⟨hdistance, fun t ht => ?_⟩
    rcases List.mem_cons.mp ht with rfl | ht
    · exact .inl hle
    · exact hrest t ht

/-- Candidates may carry what they are measured by. -/
theorem nearestFrom_map (f : τ → σ) (best : τ) (d : Float) (candidates : List τ) :
    nearestFrom plane distance stretch (f best) d (candidates.map f) =
      (nearestFrom (plane ∘ f) (distance ∘ f) stretch best d candidates).map f id := by
  induction candidates generalizing best d with
  | nil => rfl
  | cons s rest ih =>
    simp only [List.map_cons, nearestFrom, Function.comp_apply, ih]
    split
    · rfl
    · split <;> rfl

theorem nearest?_map (f : τ → σ) (candidates : List τ) :
    nearest? plane distance stretch (candidates.map f) =
      (nearest? (plane ∘ f) (distance ∘ f) stretch candidates).map (Prod.map f id) := by
  cases candidates with
  | nil => rfl
  | cons s rest => exact congrArg some (nearestFrom_map f s _ rest)

end

/-! ## Locating on an index -/

/-- A way to compute the distance of two points on the sphere, and how much narrower a degree of
longitude is at a latitude than in a projection. -/
structure Globe where
  distance : Point → Point → Float
  stretch : Projection → Float → Float

/-- The way that is used. -/
def Globe.earth : Globe :=
  ⟨Geo.greatCircle, Projection.stretch⟩

namespace Index

variable {g : Globe} {ix : Index} {p : Point} {order : List Segment}

def planeSq (ix : Index) (p : Point) (s : Segment) : Float :=
  s.piece.distanceSq (ix.projection.toPlane p)

def plane (ix : Index) (p : Point) (s : Segment) : Float :=
  (ix.planeSq p s).sqrt

/-- The distance of a position from a segment: the closest point is found in the plane. -/
def sphere (g : Globe) (ix : Index) (p : Point) (s : Segment) : Float :=
  let piece : Piece Float := ⟨ix.projection.toPlane s.start, ix.projection.toPlane s.stop⟩
  g.distance p (ix.projection.ofPlane (piece.closest (ix.projection.toPlane p)))

def stretchAt (g : Globe) (ix : Index) (p : Point) : Float :=
  lesser ix.minStretch (g.stretch ix.projection p.lat) * slack

/-- Locates a position by a walk over the segments in this order. -/
def locateAlong (g : Globe) (ix : Index) (p : Point) (order : List Segment) : Option Hit :=
  (nearest? (ix.plane p) (ix.sphere g p) (ix.stretchAt g p) order).map fun (s, d) => ⟨s.edge, d⟩

/-- The order in which the segments are visited. -/
def nearestFirst (ix : Index) (p : Point) : List Segment :=
  ix.segments.mergeSort fun s t => decide (ix.planeSq p s ≤ ix.planeSq p t)

theorem locate_eq (ix : Index) (p : Point) :
    ix.locate p = ix.locateAlong .earth p (ix.nearestFirst p) := by
  have hsort : (ix.nearestFirst p).map (fun s => (s, ix.planeSq p s)) =
      ix.byDistance (ix.projection.toPlane p) :=
    List.map_mergeSort fun _ _ _ _ => rfl
  rw [locate, ← hsort, nearest?_map, Option.map_map]
  rfl

/-- The measurements of a position that the walk can compare: none of them is a NaN, and neither
distances in the plane nor the stretch are negative. -/
structure Readable (g : Globe) (ix : Index) (p : Point) : Prop where
  stretch_nonneg : 0 ≤ ix.stretchAt g p
  measured : ∀ s ∈ ix.segments, Measured (ix.plane p) (ix.sphere g p) (ix.stretchAt g p) s

/-- The orders in which the segments may be visited: those equally far in the plane come as they
please. -/
structure Admissible (ix : Index) (p : Point) (order : List Segment) : Prop where
  perm : order.Perm ix.segments
  sorted : order.Pairwise fun s t => ix.plane p s ≤ ix.plane p t

theorem nearestFirst_admissible (h : ∀ s ∈ ix.segments, 0 ≤ ix.plane p s) :
    ix.Admissible p (ix.nearestFirst p) := by
  have hperm : (ix.nearestFirst p).Perm ix.segments := List.mergeSort_perm _ _
  have hnonneg : ∀ s ∈ ix.segments, 0 ≤ ix.planeSq p s := fun s hs =>
    Double.sqrt_nonneg_iff.mp (h s hs)
  have hread : ∀ s ∈ ix.segments, ∀ t ∈ ix.segments,
      ix.planeSq p s ≤ ix.planeSq p t ↔
        Double.reading (ix.planeSq p s) ≤ Double.reading (ix.planeSq p t) := fun s hs t ht =>
    Double.le_iff (Double.numbers_of_le (hnonneg s hs)).2 (Double.numbers_of_le (hnonneg t ht)).2
  have hsort : ix.nearestFirst p = ix.segments.mergeSort fun s t =>
      decide (Double.reading (ix.planeSq p s) ≤ Double.reading (ix.planeSq p t)) := by
    have hmap := List.map_mergeSort (f := id) (l := ix.segments)
      (r := fun s t => decide (ix.planeSq p s ≤ ix.planeSq p t))
      (s := fun s t => decide (Double.reading (ix.planeSq p s) ≤ Double.reading (ix.planeSq p t)))
      fun s hs t ht => decide_eq_decide.mpr (hread s hs t ht)
    rwa [List.map_id, List.map_id] at hmap
  have hsorted : (ix.nearestFirst p).Pairwise fun s t =>
      Double.reading (ix.planeSq p s) ≤ Double.reading (ix.planeSq p t) := by
    rw [hsort]
    exact List.pairwise_mergeSort'
      (Order.Preimage (fun s => Double.reading (ix.planeSq p s)) (· ≤ ·)) _
  refine ⟨hperm, hsorted.imp_of_mem fun hs ht hle => ?_⟩
  have hs := hperm.mem_iff.mp hs
  have ht := hperm.mem_iff.mp ht
  exact Double.sqrt_le_sqrt (hnonneg _ hs) ((hread _ hs _ ht).mpr hle)

theorem locateAlong_eq_none_iff (hperm : order.Perm ix.segments) :
    ix.locateAlong g p order = none ↔ ix.segments = [] := by
  rw [locateAlong, Option.map_eq_none_iff, nearest?_eq_none_iff]
  constructor
  · rintro rfl
    exact hperm.nil_eq.symm
  · intro hnone
    rw [hnone] at hperm
    exact hperm.eq_nil

/-- What is located is a segment, and its distance accounts for all others. -/
theorem accountsFor_of_locateAlong {hit : Hit} (h : Readable g ix p)
    (ho : ix.Admissible p order) (hlocate : ix.locateAlong g p order = some hit) :
    (∃ s ∈ ix.segments, hit.edge = s.edge ∧ hit.distance = ix.sphere g p s) ∧
      ∀ s ∈ ix.segments,
        AccountsFor (ix.plane p) (ix.sphere g p) (ix.stretchAt g p) hit.distance s := by
  obtain ⟨found, hnearest, rfl⟩ := Option.map_eq_some_iff.mp hlocate
  obtain ⟨hdistance, haccounts⟩ := nearest?_accountsFor h.stretch_nonneg
    (fun s hs => h.measured s (ho.perm.mem_iff.mp hs)) ho.sorted hnearest
  have hmem := ho.perm.mem_iff.mp (mem_of_nearest? hnearest)
  exact ⟨⟨found.1, hmem, rfl, hdistance⟩, fun s hs => haccounts s (ho.perm.mem_iff.mpr hs)⟩

/-- Where no bound lies above the distance it is for, what is located is nearest. -/
theorem locateAlong_le {hit : Hit} (h : Readable g ix p) (ho : ix.Admissible p order)
    (hlocate : ix.locateAlong g p order = some hit)
    (hbound : ∀ s ∈ ix.segments, ix.plane p s * ix.stretchAt g p ≤ ix.sphere g p s) :
    ∀ s ∈ ix.segments, hit.distance ≤ ix.sphere g p s := by
  intro s hs
  rcases (accountsFor_of_locateAlong h ho hlocate).2 s hs with hle | hlt
  · exact hle
  · exact Double.le_of_lt (Double.lt_of_lt_of_le hlt (hbound s hs))

/-- Whatever order by distance in the plane the segments are visited in, a position is located
unless there are none, and then on a segment and at its distance. Every segment is as far as that,
or its distance in the plane times the stretch is larger. So where this product never exceeds the
distance on the sphere, the distance is the least one of all, in every order. The order of the
index is such an order. -/
theorem walk_accounts_for_every_segment (h : Readable g ix p) (ho : ix.Admissible p order) :
    (ix.locateAlong g p order = none ↔ ix.segments = []) ∧
    (∀ hit, ix.locateAlong g p order = some hit →
      (∃ s ∈ ix.segments, hit.edge = s.edge ∧ hit.distance = ix.sphere g p s) ∧
      (∀ s ∈ ix.segments, hit.distance ≤ ix.sphere g p s ∨
        hit.distance < ix.plane p s * ix.stretchAt g p) ∧
      ((∀ s ∈ ix.segments, ix.plane p s * ix.stretchAt g p ≤ ix.sphere g p s) →
        (∀ s ∈ ix.segments, hit.distance ≤ ix.sphere g p s) ∧
        ∀ order', ix.Admissible p order' →
          ∃ hit', ix.locateAlong g p order' = some hit' ∧ hit'.distance == hit.distance)) ∧
    ix.Admissible p (ix.nearestFirst p) ∧
    ∀ q, ix.locate q = ix.locateAlong .earth q (ix.nearestFirst q) ∧
      ∀ s, ix.sphere .earth q s = ix.projection.distanceTo q s.start s.stop := by
  refine ⟨locateAlong_eq_none_iff ho.perm, fun hit hlocate => ?_,
    nearestFirst_admissible fun s hs => (h.measured s hs).plane_nonneg,
    fun q => ⟨ix.locate_eq q, fun _ => rfl⟩⟩
  obtain ⟨⟨s, hs, hedge, hdistance⟩, haccounts⟩ := accountsFor_of_locateAlong h ho hlocate
  refine ⟨⟨s, hs, hedge, hdistance⟩, haccounts, fun hbound => ?_⟩
  refine ⟨locateAlong_le h ho hlocate hbound, fun order' ho' => ?_⟩
  have hsome : ix.locateAlong g p order' ≠ none := fun hnone => by
    rw [(locateAlong_eq_none_iff ho'.perm).mp hnone] at hs
    cases hs
  obtain ⟨hit', hlocate'⟩ := Option.ne_none_iff_exists'.mp hsome
  obtain ⟨⟨s', hs', -, hdistance'⟩, -⟩ := accountsFor_of_locateAlong h ho' hlocate'
  refine ⟨hit', hlocate', Double.beq_of_le ?_ ?_⟩
  · exact hdistance ▸ locateAlong_le h ho' hlocate' hbound s hs
  · exact hdistance' ▸ locateAlong_le h ho hlocate hbound s' hs'

/-- Two segments on one meridian, and how points on it are measured. -/
def meridian : Index :=
  let m : Projection := ⟨Geo.metersPerDegree⟩
  let segment (e : EdgeId) (a b : Point) : Segment := ⟨e, a, b, ⟨m.toPlane a, m.toPlane b⟩⟩
  ⟨[segment 5 ⟨0.001, 0⟩ ⟨0.002, 0⟩, segment 3 ⟨0.0002, 0⟩ ⟨0.0006, 0⟩], m, 1⟩

def alongMeridian : Globe where
  distance p q := Geo.earthRadius * Geo.radians (q.lat - p.lat).abs
  stretch m _ := Geo.metersPerDegree / m.lonScale

/-- From the equator the nearer of the two is found, which is the second one of the index. -/
theorem walk_accounts_for_meridian :
    ∃ hit, meridian.locateAlong alongMeridian ⟨0, 0⟩ meridian.segments.reverse = some hit ∧
      hit.edge = 3 ∧
      ∀ s ∈ meridian.segments, hit.distance ≤ meridian.sphere alongMeridian ⟨0, 0⟩ s := by
  have hreadable : Readable alongMeridian meridian ⟨0, 0⟩ := by
    refine ⟨by decide +kernel, fun s hs => ⟨?_, ?_, ?_⟩⟩ <;> revert s <;> decide +kernel
  have hadmissible : meridian.Admissible ⟨0, 0⟩ meridian.segments.reverse :=
    ⟨List.reverse_perm _, by decide +kernel⟩
  have hbound : ∀ s ∈ meridian.segments,
      meridian.plane ⟨0, 0⟩ s * meridian.stretchAt alongMeridian ⟨0, 0⟩ ≤
        meridian.sphere alongMeridian ⟨0, 0⟩ s := by decide +kernel
  have hedge : (meridian.locateAlong alongMeridian ⟨0, 0⟩ meridian.segments.reverse).map
      Hit.edge = some 3 := by decide +kernel
  obtain ⟨hit, hlocate, hthree⟩ := Option.map_eq_some_iff.mp hedge
  obtain ⟨-, hfound, -⟩ := walk_accounts_for_every_segment hreadable hadmissible
  obtain ⟨-, -, hnearest⟩ := hfound hit hlocate
  exact ⟨hit, hlocate, hthree, (hnearest hbound).1⟩

end Index

end Ridership.Snap
