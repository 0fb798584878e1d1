import Ridership.Decimal.Natural
import Ridership.Text.Blank

/-!
# Tags of a way

A way is described by tags, each a key with a value. What the router wants to know of a way is
read off its tags here: its lanes and the kinds of cycling infrastructure it has.
-/

namespace Ridership.Routing

/-- The tags of a way; of two tags with one key the later one counts. -/
structure Tags where
  entries : List (String × String) := []
deriving Repr

namespace Tags

def get? (t : Tags) (key : String) : Option String :=
  (t.entries.reverse.find? fun e => e.1 == key).map Prod.snd

def isAnyOf (t : Tags) (key : String) (values : List String) : Bool :=
  match t.get? key with
  | none => false
  | some v => values.contains v

def oneWay (t : Tags) : Bool :=
  t.isAnyOf "oneway" ["yes"]

/-- The number of lanes as tagged; else one on a one-way road and two on any other. -/
def laneCount (t : Tags) : Nat :=
  let tagged := (t.get? "lanes").bind fun v =>
    Decimal.natBelow? UInt32.size (Text.trimBlank v.toList)
  tagged.getD (if t.oneWay then 1 else 2)

def isCyclePath (t : Tags) : Bool :=
  t.isAnyOf "highway" ["cycleway"] ||
    (t.isAnyOf "highway" ["footway"] && t.isAnyOf "bicycle" ["yes"]) ||
    (t.isAnyOf "highway" ["path"] && t.isAnyOf "bicycle" ["designated", "official", "yes"]) ||
    (t.isAnyOf "highway" ["service"] && t.isAnyOf "bicycle" ["designated"])

def hasCycleLane (t : Tags) : Bool :=
  t.isAnyOf "cycleway" ["left", "right", "track", "lane", "opposite_lane"] ||
    t.isAnyOf "cycleway:left" ["lane"] || t.isAnyOf "cycleway:right" ["lane"] ||
    t.isAnyOf "cycleway:both" ["lane"]

def hasSharedLane (t : Tags) : Bool :=
  t.isAnyOf "cycleway" ["shared_lane"]

end Tags

end Ridership.Routing
