import Ridership.Geo.Point
import Ridership.Geo.Plane

/-!
# The sphere and its local projection

Distances on the sphere are great-circle distances. Closest points are found in the plane of an
equirectangular projection around a reference latitude and then measured on the sphere.
-/

namespace Ridership.Geo

def earthRadius : Float := 6371008.8

def metersPerDegree : Float := 111320

def radians (degrees : Float) : Float :=
  degrees * (3.141592653589793 / 180)

def greatCircle (p q : Point) : Float :=
  let dLat := (radians (q.lat - p.lat) / 2).sin
  let dLon := (radians (q.lon - p.lon) / 2).sin
  let a := dLat * dLat + (radians p.lat).cos * (radians q.lat).cos * (dLon * dLon)
  earthRadius * (2 * a.sqrt.asin)

/-- An equirectangular projection, given by the metres in a degree of longitude. -/
structure Projection where
  lonScale : Float
deriving Repr

namespace Projection

/-- The projection around a latitude. Near the poles a degree of longitude keeps a tenth of its
width on the equator, so that no longitude collapses. -/
def around (lat : Float) : Projection :=
  let c := (radians lat).cos
  ⟨metersPerDegree * (if 0.1 ≤ c then c else 0.1)⟩

def toPlane (m : Projection) (p : Point) : Vec Float :=
  ⟨p.lon * m.lonScale, p.lat * metersPerDegree⟩

def ofPlane (m : Projection) (v : Vec Float) : Point :=
  ⟨v.y / metersPerDegree, v.x / m.lonScale⟩

def stretch (m : Projection) (lat : Float) : Float :=
  metersPerDegree * (radians lat).cos / m.lonScale

/-- Metres from `p` to the piece between `a` and `b`: the closest point is found in the plane and
measured on the sphere. -/
def distanceTo (m : Projection) (p a b : Point) : Float :=
  let piece : Piece Float := ⟨m.toPlane a, m.toPlane b⟩
  greatCircle p (m.ofPlane (piece.closest (m.toPlane p)))

end Projection

end Ridership.Geo
