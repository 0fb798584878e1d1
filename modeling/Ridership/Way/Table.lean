import Ridership.Decimal.Natural
import Ridership.Disk.Plain
import Ridership.Json.Value
import Ridership.Way.EdgeMap

/-!
# Popularity by way

A table gives ways a popularity. It is written as an object whose keys are way numbers.
Popularities are cut to 32 bits and rounded down; what is not a positive number counts as zero.
-/

namespace Ridership.Way

open Ridership.Json (Value)

abbrev Table := Std.TreeMap WayId UInt32 compare

namespace Table

def wayOfKey? (key : String) : Option WayId :=
  (Decimal.natBelow? UInt64.size key.toList).map UInt64.ofNat

/-- The popularity that a value stands for. -/
def popularityOf (v : Value) : UInt32 :=
  match v.float? with
  | none => 0
  | some x => if 0 < x then (if 4294967295 < x then 4294967295 else x).toUInt32 else 0

def addEntry (t : Table) (entry : String × Value) : Except TableFault Table :=
  match wayOfKey? entry.1 with
  | none => .error (.wayId entry.1)
  | some way => .ok (t.insert way (popularityOf entry.2))

/-- The table of the entries of an object, visited in this order. -/
def ofEntries (entries : List (String × Value)) : Except TableFault Table :=
  entries.foldlM addEntry ∅

def ofBytes (bytes : Bytes) : Except TableFault Table := do
  match ← (Value.ofBytes bytes).mapError .json with
  | .object fields => ofEntries fields
  | _ => throw (.json (.wrongType "an object"))

def parse (path : String) (bytes : Bytes) : Except Failure Table :=
  (ofBytes bytes).mapError (.malformedTable path)

def load (d : Disk) (path : String) : Except Failure Table := do
  let bytes ← (d.readPlain path).mapError (.io path)
  parse path bytes

end Table

end Ridership.Way
