/-!
# Doubles as exact numbers

A finite double is a sign, a mantissa and a power of two. Decimal texts are found from these parts
in exact arithmetic.
-/

namespace Ridership.Decimal

/-- The number `mantissa * 2 ^ exponent`, negated when `negative` holds. -/
structure Binary where
  negative : Bool
  mantissa : Nat
  exponent : Int
deriving DecidableEq, Repr

namespace Binary

/-- The value of the first bit of a mantissa, which is not stored. -/
def leadingBit : Nat := 0x10000000000000

def minExponent : Int := -1074

/-- The parts of a double given by its bits; nothing for infinities and NaN. -/
def ofBits? (bits : UInt64) : Option Binary :=
  let negative := bits >>> 63 == 1
  let biased := ((bits >>> 52) &&& 0x7ff).toNat
  let fraction := (bits &&& 0xfffffffffffff).toNat
  if biased = 2047 then none
  else if biased = 0 then some ⟨negative, fraction, minExponent⟩
  else some ⟨negative, fraction + leadingBit, minExponent + (biased - 1 : Nat)⟩

def ofFloat? (x : Float) : Option Binary :=
  ofBits? x.toBits

end Binary

def ratioPow (b : Nat) : Int → Nat × Nat
  | .ofNat n => (Nat.pow b n, 1)
  | .negSucc n => (1, Nat.pow b (n + 1))

end Ridership.Decimal
