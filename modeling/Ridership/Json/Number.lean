import Ridership.Json.Fault

/-!
# Numbers

A numeral is the written form of a number, a number its value. Integers of 64 bits keep their
value; every other number becomes a double. Its digits are gathered into 64 bits as long as they
fit, and the gathered integer is scaled by the power of ten that is left.
-/

namespace Ridership.Json

inductive Number
  | integer (value : Int)
  | real (value : Float)
deriving Repr

def Number.toFloat : Number → Float
  | .integer i => Float.ofInt i
  | .real x => x

/-- The parts of a written number. The fraction is empty when there is no point. -/
structure Numeral where
  negative : Bool
  whole : List Nat
  fraction : List Nat
  /-- Whether the exponent is negative, and its digits. -/
  exponent : Option (Bool × List Nat)
deriving DecidableEq, Repr

namespace Numeral

def isDigit (b : UInt8) : Bool :=
  48 ≤ b && b ≤ 57

def spanDigits (bs : List UInt8) : List Nat × List UInt8 :=
  ((bs.takeWhile isDigit).map fun b => b.toNat - 48, bs.dropWhile isDigit)

def exponentOf? : List UInt8 → Option (Option (Bool × List Nat))
  | [] => some none
  | e :: bs =>
    if e = 101 || e = 69 then
      let (negative, written) := match bs with
        | 43 :: rest => (false, rest)
        | 45 :: rest => (true, rest)
        | _ => (false, bs)
      match spanDigits written with
      | ([], _) => none
      | (ds, []) => some (some (negative, ds))
      | _ => none
    else none

/-- The numeral that a text consists of: no zero leads another digit, and a point or an exponent
mark is followed by a digit. -/
def ofBytes? (bs : List UInt8) : Option Numeral :=
  let (negative, unsigned) := match bs with
    | 45 :: rest => (true, rest)
    | _ => (false, bs)
  match spanDigits unsigned with
  | ([], _) => none
  | (0 :: _ :: _, _) => none
  | (whole, 46 :: rest) =>
    match spanDigits rest with
    | ([], _) => none
    | (fraction, rest) => (exponentOf? rest).map fun e => ⟨negative, whole, fraction, e⟩
  | (whole, rest) => (exponentOf? rest).map fun e => ⟨negative, whole, [], e⟩

/-- Appends digits to `n` as long as the result stays below `2 ^ 64`. Yields the number reached
and the digits left over. -/
def gather (n : Nat) : List Nat → Nat × List Nat
  | [] => (n, [])
  | d :: ds => if 10 * n + d < UInt64.size then gather (10 * n + d) ds else (n, d :: ds)

/-- A double divided by a power of ten, in steps that keep the power finite. -/
def shrink (x : Float) (power : Nat) : Float :=
  if power ≤ 308 then x / Float.ofScientific 1 false power
  else if x == 0 then x
  else shrink (x / Float.ofScientific 1 false 308) (power - 308)
termination_by power

/-- A gathered integer times a power of ten, unless that is too large for a double. -/
def scale? (n : Nat) : Int → Option Float
  | .ofNat power =>
    if power ≤ 308 then
      some (Float.ofNat n * Float.ofScientific 1 false power) |>.filter Float.isFinite
    else if n = 0 then some 0
    else none
  | .negSucc power => some (shrink (Float.ofNat n) (power + 1))

def exponentValue : Option (Bool × List Nat) → Int
  | none => 0
  | some (negative, ds) =>
    let n : Nat := ds.foldl (fun n d => 10 * n + d) 0
    if negative then -(n : Int) else n

def isInteger (n : Numeral) : Bool :=
  n.fraction.isEmpty && n.exponent.isNone

def toReal? (n : Numeral) : Option Float :=
  let (m, dropped) := gather 0 n.whole
  let (m, ignored) := gather m n.fraction
  let power : Int := (dropped.length : Int) + ignored.length - n.fraction.length
  (scale? m (power + exponentValue n.exponent)).map fun x => if n.negative then -x else x

/-- The value of a numeral. A negative zero is a double, as is an integer that 64 bits cannot
hold. -/
def toNumber (n : Numeral) : Except Fault Number :=
  let real := match n.toReal? with
    | some x => .ok (.real x)
    | none => .error .numberOutOfRange
  if n.isInteger then
    match gather 0 n.whole with
    | (m, []) =>
      if !n.negative then .ok (.integer m)
      else if m ≠ 0 ∧ m ≤ UInt64.size / 2 then .ok (.integer (-m))
      else real
    | _ => real
  else real

end Numeral

end Ridership.Json
