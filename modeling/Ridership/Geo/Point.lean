/-!
# Positions on the globe

A position is a latitude and a longitude in degrees. Positions come from files and may be anything
a double can hold, so every user keeps only the valid ones.
-/

namespace Ridership.Geo

structure Point where
  lat : Float
  lon : Float
deriving Inhabited, Repr

namespace Point

/-- Finite coordinates within 90 degrees of the equator and 180 degrees of the prime meridian. -/
def isValid (p : Point) : Bool :=
  p.lat.isFinite && p.lon.isFinite &&
    decide (-90 ≤ p.lat) && decide (p.lat ≤ 90) && decide (-180 ≤ p.lon) && decide (p.lon ≤ 180)

/-- The arithmetic mean of a list of positions; the origin for the empty list. -/
def mean : List Point → Point
  | [] => ⟨0, 0⟩
  | ps =>
    let count := Float.ofNat ps.length
    let sum (xs : List Float) : Float := xs.foldl (· + ·) (-0.0)
    ⟨sum (ps.map lat) / count, sum (ps.map lon) / count⟩

end Point

end Ridership.Geo
