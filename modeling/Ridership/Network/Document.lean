import Ridership.Failure
import Ridership.Json.Record
import Ridership.Network

/-!
# Network documents

A network is written as a record of its edge count, which may be missing, and its edges, each a
record of its number and its points. A document that declares fewer edges than it numbers is
refused.
-/

namespace Ridership.Network

open Ridership.Json (Fault Tree)

def pointOfTree : Tree → Except Fault Geo.Point
  | .array [lat, lon] => return ⟨← lat.float, ← lon.float⟩
  | _ => throw (.wrongType "a pair of numbers")

def edgeOfTree (t : Tree) : Except Fault Edge := do
  match ← t.fields ["edge_id", "points"] with
  | [id, points] =>
    let id ← Tree.required "edge_id" (Tree.natBelow UInt32.size) id
    let points ← Tree.required "points" (Tree.list pointOfTree) points
    return ⟨UInt32.ofNat id, points⟩
  | _ => throw (.wrongType "an edge")

/-- The edge count that a tree writes, if it does not leave it open. -/
def countOfTree : Tree → Except Fault (Option Nat)
  | .null => return none
  | t => (t.natBelow UInt64.size).map some

def ofTree (t : Tree) : Except Fault Network := do
  match ← t.fields ["edge_count", "edges"] with
  | [count, edges] =>
    let declared ← Tree.optional none countOfTree count
    let edges ← Tree.required "edges" (Tree.list edgeOfTree) edges
    return ⟨declared, edges⟩
  | _ => throw (.wrongType "a network")

/-- The network if it declares as many edges as it numbers, or does not declare them. -/
def checked (path : String) (n : Network) : Except Failure Network :=
  match n.declared with
  | none => .ok n
  | some count =>
    if count < n.usedCount then
      .error (.configuration (.undeclaredEdge path count (n.usedCount - 1)))
    else .ok n

def load (d : Disk) (path : String) : Except Failure Network :=
  match d.read path with
  | .error .isAFolder => .error (.configuration (.network path Disk.Fault.isAFolder.message))
  | .error f => .error (.io path (.disk f))
  | .ok bytes =>
    match (Tree.ofBytes bytes).bind ofTree with
    | .error f => .error (.configuration (.network path f.message))
    | .ok n => checked path n

end Ridership.Network
