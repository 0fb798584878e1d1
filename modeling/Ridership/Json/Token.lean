import Ridership.Json.Number

/-!
# Tokens

A document is cut into tokens byte by byte. A string token holds the bytes between its quotes as
they are written: its escapes are well formed, but neither decoded nor checked to be text.
-/

namespace Ridership.Json

inductive Token
  | openArray
  | closeArray
  | openObject
  | closeObject
  | comma
  | colon
  | null
  | bool (value : Bool)
  | number (numeral : Numeral)
  | string (raw : List UInt8)
deriving DecidableEq, Repr

/-- Where the reading stands. What was read of a token is kept last byte first. -/
inductive Scan
  | between
  | numeral (read : List UInt8)
  | word (read : List UInt8)
  | string (read : List UInt8)
  | escape (read : List UInt8)
  | hex (read : List UInt8) (left : Nat)
deriving DecidableEq, Repr

/-- The state of the reading: the tokens read so far, the last one first. -/
structure Scanner where
  scan : Scan := .between
  tokens : List Token := []

namespace Scanner

def isBlank (b : UInt8) : Bool :=
  b = 9 || b = 10 || b = 13 || b = 32

def inNumeral (b : UInt8) : Bool :=
  Numeral.isDigit b || b = 43 || b = 45 || b = 46 || b = 69 || b = 101

def isLetter (b : UInt8) : Bool :=
  97 ≤ b && b ≤ 122

def isHex (b : UInt8) : Bool :=
  Numeral.isDigit b || (65 ≤ b && b ≤ 70) || (97 ≤ b && b ≤ 102)

def mark? (b : UInt8) : Option Token :=
  if b = 91 then some .openArray
  else if b = 93 then some .closeArray
  else if b = 123 then some .openObject
  else if b = 125 then some .closeObject
  else if b = 44 then some .comma
  else if b = 58 then some .colon
  else none

def word? (letters : List UInt8) : Option Token :=
  if letters = "null".toUTF8.toList then some .null
  else if letters = "true".toUTF8.toList then some (.bool true)
  else if letters = "false".toUTF8.toList then some (.bool false)
  else none

def start (tokens : List Token) (b : UInt8) : Except Fault Scanner :=
  if isBlank b then .ok ⟨.between, tokens⟩
  else match mark? b with
    | some t => .ok ⟨.between, t :: tokens⟩
    | none =>
      if b = 34 then .ok ⟨.string [], tokens⟩
      else if b = 45 || Numeral.isDigit b then .ok ⟨.numeral [b], tokens⟩
      else if isLetter b then .ok ⟨.word [b], tokens⟩
      else .error (.unexpectedByte b)

def close (s : Scanner) : Except Fault (List Token) :=
  match s.scan with
  | .between => .ok s.tokens
  | .numeral read =>
    match Numeral.ofBytes? read.reverse with
    | some n => .ok (.number n :: s.tokens)
    | none => .error .malformedNumber
  | .word read =>
    match word? read.reverse with
    | some t => .ok (t :: s.tokens)
    | none => .error .unknownWord
  | .string _ | .escape _ | .hex _ _ => .error .endOfText

def isEscape (b : UInt8) : Bool :=
  [34, 47, 92, 98, 102, 110, 114, 116].contains b

def step (s : Scanner) (b : UInt8) : Except Fault Scanner :=
  match s.scan with
  | .between => start s.tokens b
  | .numeral read =>
    if inNumeral b then .ok { s with scan := .numeral (b :: read) }
    else s.close.bind fun ts => start ts b
  | .word read =>
    if isLetter b then .ok { s with scan := .word (b :: read) }
    else s.close.bind fun ts => start ts b
  | .string read =>
    if b = 34 then .ok ⟨.between, .string read.reverse :: s.tokens⟩
    else if b = 92 then .ok { s with scan := .escape (b :: read) }
    else if b < 32 then .error (.unexpectedByte b)
    else .ok { s with scan := .string (b :: read) }
  | .escape read =>
    if isEscape b then .ok { s with scan := .string (b :: read) }
    else if b = 117 then .ok { s with scan := .hex (b :: read) 4 }
    else .error (.unexpectedByte b)
  | .hex read left =>
    if isHex b then
      .ok { s with scan := if left ≤ 1 then .string (b :: read) else .hex (b :: read) (left - 1) }
    else .error (.unexpectedByte b)

end Scanner

def tokens (bytes : List UInt8) : Except Fault (List Token) := do
  let s ← bytes.foldlM Scanner.step {}
  let ts ← s.close
  return ts.reverse

end Ridership.Json
