import Ridership.Decimal.Natural

/-!
# Doubles in decimal

A double is written in digits with an optional sign, point and exponent, or as one of the words
for infinity and NaN, in small or capital letters. It is the double nearest to what is written.
-/

namespace Ridership.Decimal

def spanDigits (cs : List Char) : List Char × List Char :=
  cs.span fun c => (digit? c).isSome

/-- An exponent with its mark; an empty text stands for zero. -/
def exponent? : List Char → Option Int
  | [] => some 0
  | 'e' :: cs | 'E' :: cs =>
    match cs with
    | '-' :: ds => (digits? ds).map fun n => -(n : Int)
    | '+' :: ds => (digits? ds).map Int.ofNat
    | ds => (digits? ds).map Int.ofNat
  | _ => none

/-- The double nearest to `n * 10 ^ e`. Beyond `bound`, which has to leave room for the digits of
`n`, the exponent makes no difference. -/
def scaled (n : Nat) (bound : Nat) : Int → Float
  | .ofNat e => if n = 0 then 0 else Float.ofScientific n false (min e bound)
  | .negSucc e => Float.ofScientific n true (min (e + 1) bound)

def unsignedReal? (cs : List Char) : Option Float :=
  let word := String.ofList (cs.map Char.toLower)
  if word = "inf" ∨ word = "infinity" then some (1 / 0)
  else if word = "nan" then some (0 / 0)
  else
    let (whole, rest) := spanDigits cs
    let (fraction, rest) := match rest with
      | '.' :: rest => spanDigits rest
      | _ => ([], rest)
    match natFrom? 0 (whole ++ fraction), exponent? rest with
    | some n, some e =>
      if whole.isEmpty && fraction.isEmpty then none
      else some (scaled n (400 + 2 * (whole.length + fraction.length)) (e - fraction.length))
    | _, _ => none

def real? : List Char → Option Float
  | '-' :: cs => (unsignedReal? cs).map fun x => -x
  | '+' :: cs => unsignedReal? cs
  | cs => unsignedReal? cs

def int? : List Char → Option Int
  | '-' :: cs => (digits? cs).map fun n => -(n : Int)
  | '+' :: cs => (digits? cs).map Int.ofNat
  | cs => (digits? cs).map Int.ofNat

end Ridership.Decimal
