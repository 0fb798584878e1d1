import Ridership.Json.Token

/-!
# Syntax trees

The tree of a document as written: numbers are numerals, strings are the bytes between their
quotes, and objects list their fields in order. Trees may be nested to any depth; tokens are put
together with an explicit stack.
-/

namespace Ridership.Json

inductive Tree
  | null
  | bool (value : Bool)
  | number (numeral : Numeral)
  | string (raw : List UInt8)
  | array (items : List Tree)
  | object (fields : List (List UInt8 × Tree))
deriving Repr

/-- An array or an object that is still open, with what it holds so far, the last first. -/
inductive Frame
  | array (items : List Tree)
  | object (fields : List (List UInt8 × Tree)) (key : List UInt8)

inductive Awaiting
  | value
  | firstItem
  | firstKey (fields : List (List UInt8 × Tree))
  | key (fields : List (List UInt8 × Tree))
  | colon (fields : List (List UInt8 × Tree)) (key : List UInt8)
  /-- A comma or the end of what encloses the value. -/
  | next (value : Tree)

/-- The state of the reading: what may come next, and the open arrays and objects around it, the
innermost first. -/
structure Builder where
  awaiting : Awaiting := .value
  frames : List Frame := []

namespace Builder

def begin (frames : List Frame) : Token → Except Fault Builder
  | .null => .ok ⟨.next .null, frames⟩
  | .bool b => .ok ⟨.next (.bool b), frames⟩
  | .number n => .ok ⟨.next (.number n), frames⟩
  | .string raw => .ok ⟨.next (.string raw), frames⟩
  | .openArray => .ok ⟨.firstItem, .array [] :: frames⟩
  | .openObject => .ok ⟨.firstKey [], frames⟩
  | _ => .error .unexpectedToken

def step (b : Builder) (t : Token) : Except Fault Builder :=
  match b.awaiting, t, b.frames with
  | .value, t, frames => begin frames t
  | .firstItem, .closeArray, .array items :: frames => .ok ⟨.next (.array items.reverse), frames⟩
  | .firstItem, t, frames => begin frames t
  | .firstKey fields, .closeObject, frames => .ok ⟨.next (.object fields.reverse), frames⟩
  | .firstKey fields, .string key, frames => .ok ⟨.colon fields key, frames⟩
  | .key fields, .string key, frames => .ok ⟨.colon fields key, frames⟩
  | .colon fields key, .colon, frames => .ok ⟨.value, .object fields key :: frames⟩
  | .next v, .comma, .array items :: frames => .ok ⟨.value, .array (v :: items) :: frames⟩
  | .next v, .closeArray, .array items :: frames =>
    .ok ⟨.next (.array (v :: items).reverse), frames⟩
  | .next v, .comma, .object fields key :: frames => .ok ⟨.key ((key, v) :: fields), frames⟩
  | .next v, .closeObject, .object fields key :: frames =>
    .ok ⟨.next (.object ((key, v) :: fields).reverse), frames⟩
  | _, _, _ => .error .unexpectedToken

def finish (b : Builder) : Except Fault Tree :=
  match b.awaiting, b.frames with
  | .next v, [] => .ok v
  | _, _ => .error .endOfText

end Builder

def Tree.ofBytes (bytes : List UInt8) : Except Fault Tree := do
  let ts ← tokens bytes
  let b ← ts.foldlM Builder.step {}
  b.finish

end Ridership.Json
