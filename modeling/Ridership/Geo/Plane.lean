/-!
# The plane

Pieces of straight line in the plane and the point of a piece that is closest to a given point,
over any scalars: doubles when the program runs, rationals where exact statements are wanted.
`Piece.distanceSq` is the squared distance by which pieces are ordered, `Piece.closest` the point
at which they are measured, and `Box` the rectangle around a piece.
-/

namespace Ridership.Geo

structure Vec (α : Type) where
  x : α
  y : α
deriving Repr, DecidableEq

structure Piece (α : Type) where
  start : Vec α
  stop : Vec α
deriving Repr, DecidableEq

structure Box (α : Type) where
  lo : Vec α
  hi : Vec α
deriving Repr, DecidableEq

section

variable {α : Type} [Add α] [Sub α] [Mul α] [Div α] [BEq α] [LT α] [DecidableLT α]
  [OfNat α 0] [OfNat α 1]

def Vec.dot (u v : Vec α) : α :=
  u.x * v.x + u.y * v.y

def Vec.sub (u v : Vec α) : Vec α :=
  ⟨u.x - v.x, u.y - v.y⟩

namespace Piece

def span (s : Piece α) : Vec α :=
  s.stop.sub s.start

def along (s : Piece α) (t : α) : Vec α :=
  ⟨s.start.x + t * s.span.x, s.start.y + t * s.span.y⟩

/-- The fraction of the piece at which the perpendicular through `p` meets its line. -/
def foot (s : Piece α) (p : Vec α) : α :=
  (p.sub s.start).dot s.span / s.span.dot s.span

def clamp (t : α) : α :=
  if t < 0 then 0 else if 1 < t then 1 else t

def distanceSq (s : Piece α) (p : Vec α) : α :=
  let t := if s.span.dot s.span == 0 then 0 else clamp (s.foot p)
  let c := (s.along t).sub p
  c.dot c

/-- The point of the piece that is closest to `p`; the start of a piece without extent. -/
def closest (s : Piece α) (p : Vec α) : Vec α :=
  if s.span.x == 0 && s.span.y == 0 then s.start
  else
    let t := s.foot p
    if t < 0 then s.start else if 1 < t then s.stop else s.along t

def reverse (s : Piece α) : Piece α :=
  ⟨s.stop, s.start⟩

def box (s : Piece α) : Box α where
  lo := ⟨if s.stop.x < s.start.x then s.stop.x else s.start.x,
    if s.stop.y < s.start.y then s.stop.y else s.start.y⟩
  hi := ⟨if s.stop.x < s.start.x then s.start.x else s.stop.x,
    if s.stop.y < s.start.y then s.start.y else s.stop.y⟩

end Piece

namespace Box

/-- How far a coordinate lies outside an interval. -/
def overhang (lo hi v : α) : α :=
  if v < lo then lo - v else if hi < v then v - hi else 0

def distanceSq (b : Box α) (p : Vec α) : α :=
  let d : Vec α := ⟨overhang b.lo.x b.hi.x p.x, overhang b.lo.y b.hi.y p.y⟩
  d.dot d

end Box

end

end Ridership.Geo
