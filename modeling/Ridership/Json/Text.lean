import Ridership.Json.Fault

/-!
# Strings

The text of a string token: its escapes are decoded, and the result has to be UTF-8. An escaped
surrogate has to be the first of a pair.
-/

namespace Ridership.Json

def hexValue (b : UInt8) : Nat :=
  if b ≤ 57 then b.toNat - 48 else if b ≤ 70 then b.toNat - 55 else b.toNat - 87

def hexWord (a b c d : UInt8) : Nat :=
  ((hexValue a * 16 + hexValue b) * 16 + hexValue c) * 16 + hexValue d

def escaped (b : UInt8) : UInt8 :=
  if b = 98 then 8 else if b = 102 then 12 else if b = 110 then 10 else if b = 114 then 13
  else if b = 116 then 9 else b

/-- The bytes of a string with its escapes decoded; nothing if a surrogate stands alone. -/
def unescape? : List UInt8 → Option (List UInt8)
  | [] => some []
  | 92 :: 117 :: a :: b :: c :: d :: rest =>
    let u := hexWord a b c d
    if 0xdc00 ≤ u ∧ u < 0xe000 then none
    else if 0xd800 ≤ u ∧ u < 0xdc00 then
      match rest with
      | 92 :: 117 :: a' :: b' :: c' :: d' :: rest' =>
        let v := hexWord a' b' c' d'
        if 0xdc00 ≤ v ∧ v < 0xe000 then
          let scalar := 0x10000 + (u - 0xd800) * 0x400 + (v - 0xdc00)
          (unescape? rest').map (String.utf8EncodeChar (Char.ofNat scalar) ++ ·)
        else none
      | _ => none
    else (unescape? rest).map (String.utf8EncodeChar (Char.ofNat u) ++ ·)
  | 92 :: b :: rest => (unescape? rest).map (escaped b :: ·)
  | b :: rest => (unescape? rest).map (b :: ·)

def textOf (raw : List UInt8) : Except Fault String :=
  match (unescape? raw).bind fun bs => String.fromUTF8? bs.toByteArray with
  | some s => .ok s
  | none => .error .malformedText

end Ridership.Json
