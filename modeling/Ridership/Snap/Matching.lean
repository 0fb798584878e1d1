import Ridership.Snap.Index
import Ridership.Tally

/-!
# Matching a track

The points of a track are snapped to edges, points too far from every edge are dropped, and the
edges touched make the tally of the track.
-/

namespace Ridership.Snap

/-- The distance in metres below which a point touches an edge, unless a build says otherwise. -/
def defaultReach : Float := 5

/-- A locator with the distance that a touch stays below. -/
structure Matcher where
  locate : Locator
  reach : Float

namespace Matcher

def touch? (m : Matcher) (p : Geo.Point) : Option Hit :=
  (m.locate p).filter fun h => decide (h.distance < m.reach)

def touches (m : Matcher) (track : List Geo.Point) : List Hit :=
  track.filterMap m.touch?

def tally (m : Matcher) (track : List Geo.Point) : Tally :=
  Tally.ofTouches ((m.touches track).map Hit.edge)

end Matcher

end Ridership.Snap
