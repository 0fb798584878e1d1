import Ridership.Json.Tree
import Ridership.Json.Text

/-!
# Values

A value is a document of any shape whose numbers are in range, whose strings are text, and which
is nested at most 127 deep. Of the fields of an object with one key the last one counts.
-/

namespace Ridership.Json

inductive Value
  | null
  | bool (value : Bool)
  | number (value : Number)
  | string (text : String)
  | array (items : List Value)
  | object (fields : List (String × Value))
deriving Repr

mutual

/-- The value of a tree that is nested at most `depth` deep. -/
def Tree.toValue (depth : Nat) : Tree → Except Fault Value
  | .null => .ok .null
  | .bool b => .ok (.bool b)
  | .number n => n.toNumber.map .number
  | .string raw => (textOf raw).map .string
  | .array items =>
    match depth with
    | 0 => .error .nestedTooDeeply
    | depth + 1 => (toValues depth [] items).map .array
  | .object fields =>
    match depth with
    | 0 => .error .nestedTooDeeply
    | depth + 1 => (toFields depth [] fields).map .object

/-- The values of a list of trees, after those already read, the last one first. -/
def Tree.toValues (depth : Nat) (read : List Value) : List Tree → Except Fault (List Value)
  | [] => .ok read.reverse
  | t :: rest => do
    let v ← t.toValue depth
    toValues depth (v :: read) rest

def Tree.toFields (depth : Nat) (read : List (String × Value)) :
    List (List UInt8 × Tree) → Except Fault (List (String × Value))
  | [] => .ok read.reverse
  | (raw, t) :: rest => do
    let key ← textOf raw
    let v ← t.toValue depth
    toFields depth ((key, v) :: read) rest

end

namespace Value

/-- How deep a value may be nested. -/
def maxDepth : Nat := 127

def ofBytes (bytes : List UInt8) : Except Fault Value :=
  (Tree.ofBytes bytes).bind (Tree.toValue maxDepth)

def field? (v : Value) (key : String) : Option Value :=
  match v with
  | .object fields => (fields.reverse.find? fun f => f.1 == key).map Prod.snd
  | _ => none

def float? : Value → Option Float
  | .number n => some n.toFloat
  | _ => none

def items? : Value → Option (List Value)
  | .array items => some items
  | _ => none

end Value

end Ridership.Json
