import Ridership.Failure
import Ridership.Json.Record
import Ridership.Network
import Std.Data.TreeMap.Basic

/-!
# The ways of edges

An edge belongs to at most one way. The map from edges to ways is filled while a network is
imported, and written as an object whose keys are edge numbers.
-/

namespace Ridership.Way

open Ridership.Json (Fault Numeral Tree)

abbrev WayId := UInt64

abbrev EdgeMap := Std.TreeMap EdgeId WayId compare

namespace EdgeMap

/-- The map with these pairs; of two pairs with one edge the later one counts. -/
def ofPairs (pairs : List (EdgeId × WayId)) : EdgeMap :=
  pairs.foldl (fun m p => m.insert p.1 p.2) ∅

/-- The edge number that a key writes. The key is an integer without any quoting. -/
def edgeOfKey (raw : List UInt8) : Except Fault EdgeId :=
  match Numeral.ofBytes? raw with
  | none => .error .malformedNumber
  | some n => ((Tree.number n).natBelow UInt32.size).map UInt32.ofNat

def pairOfField (f : List UInt8 × Tree) : Except Fault (EdgeId × WayId) := do
  let edge ← edgeOfKey f.1
  let way ← f.2.natBelow UInt64.size
  return (edge, UInt64.ofNat way)

def ofTree : Tree → Except Fault EdgeMap
  | .object fields => (fields.mapM pairOfField).map ofPairs
  | _ => .error (.wrongType "an object")

def load (d : Disk) (path : String) : Except Failure EdgeMap :=
  match d.read path with
  | .error .isAFolder => .error (.configuration (.edgeWays path Disk.Fault.isAFolder.message))
  | .error f => .error (.io path (.disk f))
  | .ok bytes =>
    ((Tree.ofBytes bytes).bind ofTree).mapError fun f =>
      .configuration (.edgeWays path f.message)

end EdgeMap

end Ridership.Way
