import Mathlib.Algebra.Order.Field.Basic
import Mathlib.Tactic.Linarith
import Mathlib.Tactic.Ring
import Ridership.Snap.Index

/-!
# The closest point of a piece

Over the scalars of an ordered field, where nothing is rounded, the squared distance by which
pieces are ordered is that of the point at which they are measured, and no point of the piece is
closer. So the two agree, and a box around the piece is never farther than the piece. Nothing is
said here about doubles, in which both are computed when the program runs.
-/

namespace Ridership

namespace Geo

/-- The squared distance of two points. -/
def Vec.distSq {α : Type} [Add α] [Sub α] [Mul α] (u v : Vec α) : α :=
  (u.sub v).dot (u.sub v)

section

variable {α : Type} [Field α] {s : Piece α} {p : Vec α}

/-! ## Fractions of a piece -/

namespace Piece

theorem along_zero : s.along 0 = s.start := by
  simp [along]

theorem along_one : s.along 1 = s.stop := by
  simp [along, span, Vec.sub]

theorem along_reverse (t : α) : s.reverse.along t = s.along (1 - t) := by
  simp only [along, reverse, span, Vec.sub, Vec.mk.injEq]
  constructor <;> ring

/-- On the line of a piece the squared distance from a point is quadratic in the fraction. -/
theorem distSq_along (s : Piece α) (p : Vec α) (t : α) :
    (s.along t).distSq p =
      s.start.distSq p - 2 * t * (p.sub s.start).dot s.span + t * t * s.span.dot s.span := by
  simp only [Vec.distSq, along, Vec.sub, Vec.dot]
  ring

end Piece

variable [LinearOrder α] [IsStrictOrderedRing α] {b : Box α} {v : Vec α} {t x lo hi : α}

namespace Piece

theorem span_dot_nonneg (s : Piece α) : 0 ≤ s.span.dot s.span :=
  add_nonneg (mul_self_nonneg _) (mul_self_nonneg _)

theorem span_dot_eq_zero_iff : s.span.dot s.span = 0 ↔ s.span.x = 0 ∧ s.span.y = 0 := by
  rw [Vec.dot, add_eq_zero_iff_of_nonneg (mul_self_nonneg _) (mul_self_nonneg _),
    mul_self_eq_zero, mul_self_eq_zero]

theorem clamp_nonneg (x : α) : 0 ≤ clamp x := by
  unfold clamp
  split
  · exact le_refl _
  · split
    · exact zero_le_one
    · next h _ => exact not_lt.mp h

theorem clamp_le_one (x : α) : clamp x ≤ 1 := by
  unfold clamp
  split
  · exact zero_le_one
  · split
    · exact le_refl _
    · next h => exact not_lt.mp h

/-- Seen from a number between zero and one, any number lies at its clamp or beyond it. -/
theorem clamp_between (h0 : 0 ≤ t) (h1 : t ≤ 1) : 0 ≤ (t - clamp x) * (clamp x - x) := by
  unfold clamp
  split
  · exact mul_nonneg (by linarith) (by linarith)
  · split
    · exact mul_nonneg_of_nonpos_of_nonpos (by linarith) (by linarith)
    · rw [sub_self, mul_zero]

end Piece

/-! ## Boxes -/

/-- The points of a box, those on its border included. -/
structure Box.Contains (b : Box α) (v : Vec α) : Prop where
  lo_x : b.lo.x ≤ v.x
  x_hi : v.x ≤ b.hi.x
  lo_y : b.lo.y ≤ v.y
  y_hi : v.y ≤ b.hi.y

theorem Box.overhang_mul_self_le (hlo : lo ≤ t) (hhi : t ≤ hi) (x : α) :
    overhang lo hi x * overhang lo hi x ≤ (t - x) * (t - x) := by
  unfold overhang
  split
  · exact mul_self_le_mul_self (by linarith) (by linarith)
  · split
    · calc (x - hi) * (x - hi)
          ≤ (x - t) * (x - t) := mul_self_le_mul_self (by linarith) (by linarith)
        _ = (t - x) * (t - x) := by ring
    · rw [mul_zero]
      exact mul_self_nonneg _

omit [IsStrictOrderedRing α] in
theorem Box.exists_overhang (h : lo ≤ hi) (x : α) :
    ∃ t, lo ≤ t ∧ t ≤ hi ∧ (t - x) * (t - x) = overhang lo hi x * overhang lo hi x := by
  unfold overhang
  split
  · exact ⟨lo, le_refl _, h, rfl⟩
  · next hlo =>
    split
    · exact ⟨hi, h, le_refl _, by ring⟩
    · next hhi => exact ⟨x, not_lt.mp hlo, not_lt.mp hhi, by ring⟩

/-- A box is as far from a point as the nearest of its points. -/
theorem Box.isLeast_distanceSq (hx : b.lo.x ≤ b.hi.x) (hy : b.lo.y ≤ b.hi.y) (p : Vec α) :
    IsLeast {d | ∃ v, b.Contains v ∧ v.distSq p = d} (b.distanceSq p) := by
  constructor
  · obtain ⟨x, hx_lo, hx_hi, hx⟩ := exists_overhang hx p.x
    obtain ⟨y, hy_lo, hy_hi, hy⟩ := exists_overhang hy p.y
    exact ⟨⟨x, y⟩, ⟨hx_lo, hx_hi, hy_lo, hy_hi⟩, congrArg₂ (· + ·) hx hy⟩
  · rintro _ ⟨v, hv, rfl⟩
    exact add_le_add (overhang_mul_self_le hv.lo_x hv.x_hi p.x)
      (overhang_mul_self_le hv.lo_y hv.y_hi p.y)

namespace Piece

theorem between_ends (a c : α) (h0 : 0 ≤ t) (h1 : t ≤ 1) :
    (if c < a then c else a) ≤ a + t * (c - a) ∧ a + t * (c - a) ≤ if c < a then a else c := by
  split
  · next h =>
    have hdown : t * (a - c) ≤ a - c := mul_le_of_le_one_left (by linarith) h1
    have hback : 0 ≤ t * (a - c) := mul_nonneg h0 (by linarith)
    constructor <;> linarith
  · next h =>
    have hup : t * (c - a) ≤ c - a := mul_le_of_le_one_left (by linarith) h1
    have hforth : 0 ≤ t * (c - a) := mul_nonneg h0 (by linarith)
    constructor <;> linarith

theorem box_contains_along (s : Piece α) (h0 : 0 ≤ t) (h1 : t ≤ 1) :
    s.box.Contains (s.along t) where
  lo_x := (between_ends s.start.x s.stop.x h0 h1).1
  x_hi := (between_ends s.start.x s.stop.x h0 h1).2
  lo_y := (between_ends s.start.y s.stop.y h0 h1).1
  y_hi := (between_ends s.start.y s.stop.y h0 h1).2

/-! ## The closest fraction -/

variable [BEq α]

/-- The fraction of the piece whose point orders the piece. -/
def fraction (s : Piece α) (p : Vec α) : α :=
  if s.span.dot s.span == 0 then 0 else clamp (s.foot p)

theorem fraction_nonneg (s : Piece α) (p : Vec α) : 0 ≤ s.fraction p := by
  unfold fraction
  split
  · exact le_refl _
  · exact clamp_nonneg _

theorem fraction_le_one (s : Piece α) (p : Vec α) : s.fraction p ≤ 1 := by
  unfold fraction
  split
  · exact zero_le_one
  · exact clamp_le_one _

omit [IsStrictOrderedRing α] in
theorem distanceSq_eq_along (s : Piece α) (p : Vec α) :
    s.distanceSq p = (s.along (s.fraction p)).distSq p :=
  rfl

variable [LawfulBEq α]

/-- No point of the piece is closer than the one at the fraction. -/
theorem distanceSq_le_along (h0 : 0 ≤ t) (h1 : t ≤ 1) :
    s.distanceSq p ≤ (s.along t).distSq p := by
  rw [distanceSq_eq_along, distSq_along, distSq_along]
  by_cases hspan : s.span.dot s.span = 0
  · -- All points of a piece without extent are the same.
    obtain ⟨hx, hy⟩ := span_dot_eq_zero_iff.mp hspan
    have hdot : (p.sub s.start).dot s.span = 0 := by
      rw [Vec.dot, hx, hy, mul_zero, mul_zero, add_zero]
    rw [hspan, hdot]
    simp
  · have hfraction : s.fraction p = clamp (s.foot p) := by
      rw [fraction, if_neg (by simpa using hspan)]
    have hfoot : (p.sub s.start).dot s.span = s.foot p * s.span.dot s.span :=
      (div_mul_cancel₀ _ hspan).symm
    rw [hfraction, hfoot]
    have hbetween : 0 ≤ (t - clamp (s.foot p)) * (clamp (s.foot p) - s.foot p) *
        s.span.dot s.span :=
      mul_nonneg (clamp_between h0 h1) (span_dot_nonneg s)
    have hsquare : 0 ≤ (t - clamp (s.foot p)) * (t - clamp (s.foot p)) * s.span.dot s.span :=
      mul_nonneg (mul_self_nonneg _) (span_dot_nonneg s)
    linarith

/-- The point at which a piece is measured is the one that orders it. -/
theorem closest_eq_along (s : Piece α) (p : Vec α) : s.closest p = s.along (s.fraction p) := by
  have hextent : (s.span.x == 0 && s.span.y == 0) = (s.span.dot s.span == 0) := by
    rw [Bool.eq_iff_iff, Bool.and_eq_true, beq_iff_eq, beq_iff_eq, beq_iff_eq]
    exact span_dot_eq_zero_iff.symm
  simp only [closest, fraction, clamp, hextent]
  split
  · exact along_zero.symm
  · split
    · exact along_zero.symm
    · split
      · exact along_one.symm
      · rfl

theorem distanceSq_reverse_le (s : Piece α) (p : Vec α) :
    s.reverse.distanceSq p ≤ s.distanceSq p := by
  have h0 : 0 ≤ 1 - s.fraction p := sub_nonneg.mpr (fraction_le_one s p)
  have h1 : 1 - s.fraction p ≤ 1 := sub_le_self 1 (fraction_nonneg s p)
  calc s.reverse.distanceSq p
      ≤ (s.reverse.along (1 - s.fraction p)).distSq p := distanceSq_le_along h0 h1
    _ = s.distanceSq p := by rw [along_reverse, sub_sub_cancel, distanceSq_eq_along]

end Piece

end

end Geo

namespace Snap.Index

open Geo (Piece Point Vec greatCircle)

/-- Segments are measured at the closest points of the pieces that they are ordered by. -/
theorem distanceTo_of_mem {edges : List Edge} {s : Segment} (h : s ∈ (ofEdges edges).segments)
    (q : Point) : (ofEdges edges).projection.distanceTo q s.start s.stop =
      greatCircle q ((ofEdges edges).projection.ofPlane
        (s.piece.closest ((ofEdges edges).projection.toPlane q))) := by
  obtain ⟨e, -, hs⟩ := List.mem_flatMap.mp h
  obtain ⟨joint, -, rfl⟩ := List.mem_map.mp hs
  rfl

/-- In exact arithmetic the distance that orders a piece is the least distance of its points. It is
attained by the point at which the piece is measured, which lies in the box of the piece. So the
box is no farther than the piece, and the piece is as far when it is reversed. -/
theorem closest_attains_distanceSq {α : Type} [Field α] [LinearOrder α] [IsStrictOrderedRing α]
    [BEq α] [LawfulBEq α] (s : Piece α) (p : Vec α) :
    IsLeast {d | ∃ t, 0 ≤ t ∧ t ≤ 1 ∧ (s.along t).distSq p = d} (s.distanceSq p) ∧
    (∃ t, 0 ≤ t ∧ t ≤ 1 ∧ s.closest p = s.along t) ∧
    (s.closest p).distSq p = s.distanceSq p ∧
    s.box.Contains (s.closest p) ∧
    IsLeast {d | ∃ v, s.box.Contains v ∧ v.distSq p = d} (s.box.distanceSq p) ∧
    s.box.distanceSq p ≤ s.distanceSq p ∧
    s.reverse.distanceSq p = s.distanceSq p ∧
    ∀ edges, ∀ segment ∈ (ofEdges edges).segments, ∀ q,
      (ofEdges edges).projection.distanceTo q segment.start segment.stop =
        greatCircle q ((ofEdges edges).projection.ofPlane
          (segment.piece.closest ((ofEdges edges).projection.toPlane q))) := by
  have h0 := s.fraction_nonneg p
  have h1 := s.fraction_le_one p
  have hattained : (s.closest p).distSq p = s.distanceSq p := by
    rw [Piece.closest_eq_along, Piece.distanceSq_eq_along]
  have hinside : s.box.Contains (s.closest p) := by
    rw [Piece.closest_eq_along]
    exact s.box_contains_along h0 h1
  have hstart : s.box.Contains s.start := by
    rw [← Piece.along_zero (s := s)]
    exact s.box_contains_along (le_refl _) zero_le_one
  have hbox := Geo.Box.isLeast_distanceSq (hstart.lo_x.trans hstart.x_hi)
    (hstart.lo_y.trans hstart.y_hi) p
  refine ⟨⟨⟨_, h0, h1, rfl⟩, ?_⟩, ⟨_, h0, h1, s.closest_eq_along p⟩, hattained, hinside, hbox, ?_,
    le_antisymm (s.distanceSq_reverse_le p) (s.reverse.distanceSq_reverse_le p),
    fun _ _ hs q => distanceTo_of_mem hs q⟩
  · rintro _ ⟨t, ht0, ht1, rfl⟩
    exact Piece.distanceSq_le_along ht0 ht1
  · rw [← hattained]
    exact hbox.2 ⟨_, hinside, rfl⟩

/-- A slanted piece is closest to the point in its middle, and its box is closer than that. -/
theorem closest_of_slanted_piece :
    Piece.closest ⟨⟨0, 0⟩, ⟨4, 2⟩⟩ (⟨1, 3⟩ : Vec ℚ) = ⟨2, 1⟩ ∧
      Piece.distanceSq ⟨⟨0, 0⟩, ⟨4, 2⟩⟩ (⟨1, 3⟩ : Vec ℚ) = 5 ∧
      (Piece.box ⟨⟨0, 0⟩, ⟨4, 2⟩⟩).distanceSq (⟨1, 3⟩ : Vec ℚ) = 1 ∧
      Piece.distanceSq ⟨⟨4, 2⟩, ⟨0, 0⟩⟩ (⟨1, 3⟩ : Vec ℚ) = 5 := by
  obtain ⟨-, -, hattained, -, -, -, hreverse, -⟩ :=
    closest_attains_distanceSq (⟨⟨0, 0⟩, ⟨4, 2⟩⟩ : Piece ℚ) ⟨1, 3⟩
  have hclosest : Piece.closest ⟨⟨0, 0⟩, ⟨4, 2⟩⟩ (⟨1, 3⟩ : Vec ℚ) = ⟨2, 1⟩ := by decide +kernel
  have hdistance : Piece.distanceSq ⟨⟨0, 0⟩, ⟨4, 2⟩⟩ (⟨1, 3⟩ : Vec ℚ) = 5 := by
    rw [← hattained, hclosest]
    decide +kernel
  exact ⟨hclosest, hdistance, by decide +kernel, hreverse.trans hdistance⟩

end Snap.Index

end Ridership
