import Ridership.Decimal.Binary

/-!
# The shortest decimal text of a double

Of all decimals that round to a double, the text has the fewest digits, and of those it is the
nearest to the double. It is written without an exponent.
-/

namespace Ridership.Decimal

/-- The decimal `digits * 10 ^ exponent`. -/
structure Positional where
  digits : Nat
  exponent : Int
deriving DecidableEq, Repr

namespace Binary

/-- The neighbours of `b` on the grid of multiples of `10 ^ e`, if one of them rounds to `b`. The
reals that round to `b` reach half way to the neighbouring doubles, and just below a power of two
these are twice as dense. The ends belong to them when the mantissa is even. -/
def onGrid? (b : Binary) (e : Int) : Option Nat :=
  let (ten, tenth) := ratioPow 10 e
  let (two, half) := ratioPow 2 (b.exponent - 2)
  let step := ten * half
  let unit := two * tenth
  let value := 4 * b.mantissa * unit
  let below := if b.mantissa = leadingBit ∧ minExponent < b.exponent then 1 else 2
  let low := (4 * b.mantissa - below) * unit
  let high := (4 * b.mantissa + 2) * unit
  let rounds (c : Nat) : Bool :=
    if b.mantissa % 2 = 0 then decide (low ≤ c * step ∧ c * step ≤ high)
    else decide (low < c * step ∧ c * step < high)
  let c := value / step
  let aboveIsNearer := decide ((c + 1) * step - value ≤ value - c * step)
  if rounds c then
    if rounds (c + 1) && aboveIsNearer then some (c + 1) else some c
  else if rounds (c + 1) then some (c + 1)
  else none

/-- The shortest decimal that rounds to a double other than zero: the one on the coarsest grid. -/
def shortest (b : Binary) : Positional :=
  let grids := (List.range 640).map fun (j : Nat) => 309 - (j : Int)
  (grids.findSome? fun e => (b.onGrid? e).map fun c => ⟨c, e⟩).getD ⟨0, 0⟩

end Binary

namespace Positional

def text (d : Positional) : String :=
  match d.exponent with
  | .ofNat n => String.ofList (Nat.toDigits 10 d.digits ++ List.replicate n '0')
  | .negSucc n =>
    let places := n + 1
    let cs := Nat.toDigits 10 d.digits
    let padded := List.replicate (places + 1 - cs.length) '0' ++ cs
    String.ofList (padded.take (padded.length - places) ++
      '.' :: padded.drop (padded.length - places))

end Positional

def floatText (x : Float) : String :=
  match Binary.ofFloat? x with
  | none => if x.isNaN then "NaN" else if x < 0 then "-inf" else "inf"
  | some b =>
    let magnitude := if b.mantissa = 0 then "0" else b.shortest.text
    if b.negative then "-" ++ magnitude else magnitude

end Ridership.Decimal
