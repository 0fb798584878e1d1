import Ridership.Routing.Tags

/-!
# Routing costs

The cost of an edge is its base weight times the priority of its way times a factor that falls
with the popularity of the edge, from one down to a half. All of it is arithmetic over any
scalars: doubles when the program runs, rationals where exact statements are wanted.
-/

namespace Ridership.Routing

instance natCastFloat : NatCast Float :=
  ⟨Float.ofNat⟩

section

variable {α : Type} [Add α] [Sub α] [Mul α] [Div α] [NatCast α] [OfScientific α] [LT α]
  [DecidableLT α]

/-- The factor of an edge with a popularity. An edge that nobody rode has popularity one and keeps
its cost; from there the factor falls linearly, and never below a half. -/
def popularityFactor (popularity : UInt32) : α :=
  if 1 < popularity then
    let w : α := 1.0 - (popularity.toNat : α) / 5000.0
    if w < 0.5 then 0.5 else w
  else 1.0

def plainCost (base priority : α) : α :=
  base * priority

def edgeCost (base priority : α) (popularity : UInt32) : α :=
  plainCost base priority * popularityFactor popularity

def basePriority (t : Tags) : α :=
  if t.isCyclePath then 0.6
  else if t.hasCycleLane then 0.7
  else if t.hasSharedLane then 0.75
  else if t.isAnyOf "highway" ["track"] then
    match t.get? "tracktype" with
    | some "grade1" => 0.6
    | some "grade2" => 0.7
    | some "grade3" => 0.8
    | _ => 1.0
  else if t.isAnyOf "highway" ["motorway", "trunk"] then 2.5
  else if t.isAnyOf "highway" ["path", "track"] &&
      !t.isAnyOf "bicycle" ["designated", "official", "yes"] then 2.5
  else 0.8

def onNetwork (inNetwork : Bool) (cost : α) : α :=
  if inNetwork then cost * 0.65 else cost

def withDifficulty (t : Tags) (cost : α) : α :=
  match t.get? "mtb:scale" with
  | none => cost
  | some "0-" => cost * 1.5
  | some "0" => cost * 2.0
  | some _ => cost * 2.5

def withCaution (t : Tags) (cost : α) : α :=
  if t.isAnyOf "RLIS:bicycle" ["caution_area"] then cost * 1.25 else cost

def withTraffic (t : Tags) (cost : α) : α :=
  if t.isAnyOf "cycleway" ["track"] || t.isCyclePath then cost
  else
    let wide := if 3 < t.laneCount then cost + 0.05 else cost
    if 1 < t.laneCount && t.oneWay then wide + 0.05 else wide

/-- The priority of a way; `inNetwork` holds for ways on a route of a cycle network. -/
def priority (t : Tags) (inNetwork : Bool) : α :=
  withTraffic t (withCaution t (withDifficulty t (onNetwork inNetwork (basePriority t))))

end

end Ridership.Routing
