import Ridership.Geo.Sphere
import Ridership.Network
import Ridership.Snap.Walk

/-!
# Snapping a position to the nearest edge

The polylines of a network are cut into straight segments in one projection. A query visits the
segments by their distance in the plane and ranks them by their distance on the sphere.
-/

namespace Ridership.Snap

open Ridership.Geo (Point Piece Projection Vec)

structure Segment where
  edge : EdgeId
  start : Point
  stop : Point
  piece : Piece Float
deriving Repr

structure Hit where
  edge : EdgeId
  distance : Float
deriving Repr

abbrev Locator := Point → Option Hit

structure Index where
  segments : List Segment
  projection : Projection
  /-- A lower bound of true over plane distance across the latitudes of the network. -/
  minStretch : Float
deriving Repr

/-- The part of the stretch that is relied on, for the plane and the sphere do not quite agree. -/
def slack : Float := 0.99

/-- The consecutive pairs of a list of points; a single point makes a pair with itself. -/
def joints : List Point → List (Point × Point)
  | [] => []
  | [p] => [(p, p)]
  | p :: rest => (p :: rest).zip rest

/-- The lesser of two numbers, and the other one of a number and a NaN. -/
def lesser (a b : Float) : Float :=
  if a.isNaN then b else if b < a then b else a

namespace Index

def segmentsOf (m : Projection) (e : Edge) : List Segment :=
  (joints e.validPoints).map fun (a, b) => ⟨e.id, a, b, ⟨m.toPlane a, m.toPlane b⟩⟩

def ofEdges (edges : List Edge) : Index :=
  let points := edges.flatMap Edge.validPoints
  let projection := Projection.around (Point.mean points).lat
  { segments := edges.flatMap (segmentsOf projection)
    projection
    minStretch := (points.map fun p => projection.stretch p.lat).foldl lesser 1 }

/-- The segments by non-decreasing distance from a position in the plane. -/
def byDistance (ix : Index) (v : Vec Float) : List (Segment × Float) :=
  (ix.segments.map fun s => (s, s.piece.distanceSq v)).mergeSort fun a b => decide (a.2 ≤ b.2)

def locate (ix : Index) : Locator := fun p =>
  let stretch := lesser ix.minStretch (ix.projection.stretch p.lat) * slack
  let measure (c : Segment × Float) : Float := ix.projection.distanceTo p c.1.start c.1.stop
  (nearest? (fun c => c.2.sqrt) measure stretch (ix.byDistance (ix.projection.toPlane p))).map
    fun (c, d) => ⟨c.1.edge, d⟩

end Index

end Ridership.Snap
