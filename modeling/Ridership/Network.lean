import Ridership.Geo.Point

/-!
# Road networks

A network is a list of edges with their polylines. Edge numbers are dense: a network of `n` edges
uses the numbers below `n`.
-/

namespace Ridership

abbrev EdgeId := UInt32

structure Edge where
  id : EdgeId
  points : List Geo.Point
deriving Inhabited, Repr

def Edge.validPoints (e : Edge) : List Geo.Point :=
  e.points.filter Geo.Point.isValid

/-- What an index has to know of a network: how many edges it has, and whether it is a contracted
view whose edge numbers are not those of the base network. -/
structure Extent where
  edgeCount : Nat
  contracted : Bool := false
deriving DecidableEq, Repr

/-- A network, with the edge count it declares, if any. -/
structure Network where
  declared : Option Nat := none
  edges : List Edge
deriving Inhabited, Repr

namespace Network

def usedCount (n : Network) : Nat :=
  (n.edges.map (·.id.toNat + 1)).foldl max 0

def edgeCount (n : Network) : Nat :=
  n.declared.getD n.usedCount

def extent (n : Network) : Extent :=
  ⟨n.edgeCount, false⟩

end Network

end Ridership
