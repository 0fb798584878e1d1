import Ridership.Disk.Plain
import Ridership.Geo.Point
import Ridership.Json.Value

/-!
# Track documents

A track is an object with an array of points, each with its latitude under `y` and its longitude
under `x`. Points that lack a coordinate or lie outside the globe are left out; what else a
document holds does not matter.
-/

namespace Ridership.Track

open Ridership.Geo (Point)

def point? (v : Json.Value) : Option Point := do
  let lat ← (← v.field? "y").float?
  let lon ← (← v.field? "x").float?
  return ⟨lat, lon⟩

def points (bytes : Bytes) : Except TrackFault (List Point) := do
  let v ← (Json.Value.ofBytes bytes).mapError .json
  match (v.field? "track_points").bind Json.Value.items? with
  | none => throw .noPoints
  | some items => return (items.filterMap point?).filter Point.isValid

def parse (path : String) (bytes : Bytes) : Except Failure (List Point) :=
  (points bytes).mapError (.malformedTrack path)

/-- What it means for a track that its file cannot be read: a damaged gzip file is a malformed
track, and so is a name that no file can have. -/
def unreadable (path : String) : ReadFault → Failure
  | .disk .invalidName => .malformedTrack path (.stream (.disk .invalidName))
  | .gzip f => .malformedTrack path (.stream (.gzip f))
  | f => .io path f

def load (d : Disk) (path : String) : Except Failure (List Point) := do
  let bytes ← (d.readPlain path).mapError (unreadable path)
  parse path bytes

end Ridership.Track
