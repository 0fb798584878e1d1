import Ridership.Json.Tree
import Ridership.Json.Text

/-!
# Documents with a fixed shape

A record is written as an object with known keys, or as an array of its fields in order. Unknown
keys are skipped whatever they hold; a known key that comes twice is refused. Fields are read by
functions on trees.
-/

namespace Ridership.Json.Tree

/-- Puts the fields of an object under the known keys, in the order of these. -/
def gatherFields (names : List String) (found : List (Option Tree)) :
    List (List UInt8 × Tree) → Except Fault (List (Option Tree))
  | [] => .ok found
  | (raw, t) :: rest => do
    let key ← textOf raw
    match names.findIdx? (· == key) with
    | none => gatherFields names found rest
    | some i =>
      match found[i]?.join with
      | some _ => .error (.repeatedField key)
      | none => gatherFields names (found.set i (some t)) rest

/-- The fields of a record in the order of their names, each one if it is there. -/
def fields (names : List String) : Tree → Except Fault (List (Option Tree))
  | .object fs => gatherFields names (names.map fun _ => none) fs
  | .array items =>
    if items.length ≤ names.length then
      .ok (items.map some ++ List.replicate (names.length - items.length) none)
    else .error (.wrongType "an array with one item for each field")
  | _ => .error (.wrongType "an object")

def natBelow (bound : Nat) : Tree → Except Fault Nat
  | .number n =>
    match n.isInteger, n.toNumber with
    | true, .ok (.integer (.ofNat m)) => if m < bound then .ok m else .error .numberOutOfRange
    | _, _ => .error (.wrongType "a natural number")
  | _ => .error (.wrongType "a natural number")

def float : Tree → Except Fault Float
  | .number n => n.toNumber.map Number.toFloat
  | _ => .error (.wrongType "a number")

def list {α : Type} (item : Tree → Except Fault α) : Tree → Except Fault (List α)
  | .array items => items.mapM item
  | _ => .error (.wrongType "an array")

def required {α : Type} (name : String) (read : Tree → Except Fault α) :
    Option Tree → Except Fault α
  | some t => read t
  | none => .error (.missingField name)

def optional {α : Type} (default : α) (read : Tree → Except Fault α) :
    Option Tree → Except Fault α
  | some t => read t
  | none => .ok default

end Ridership.Json.Tree
