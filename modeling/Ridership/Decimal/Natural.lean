/-!
# Natural numbers in decimal

A natural number is written as one or more of the ten digits, with an optional plus sign in front;
zeros may lead. Readers of fixed-width fields give the bound that the number stays below.
-/

namespace Ridership.Decimal

def digit? (c : Char) : Option Nat :=
  if '0' ≤ c ∧ c ≤ '9' then some (c.toNat - 48) else none

/-- The number that digits write when they follow digits that write `n`. -/
def natFrom? (n : Nat) : List Char → Option Nat
  | [] => some n
  | c :: rest => (digit? c).bind fun d => natFrom? (10 * n + d) rest

def digits? : List Char → Option Nat
  | [] => none
  | cs => natFrom? 0 cs

/-- A number below `bound`, with or without a plus sign. -/
def natBelow? (bound : Nat) (cs : List Char) : Option Nat :=
  let written := match cs with
    | '+' :: rest => rest
    | _ => cs
  (digits? written).filter fun n => decide (n < bound)

end Ridership.Decimal
