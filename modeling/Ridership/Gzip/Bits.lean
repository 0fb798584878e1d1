/-!
# Reading bits

A compressed stream is read bit by bit, the low bit of a byte first. Numbers of several bits are
written low bit first too.
-/

namespace Ridership.Gzip

inductive Fault
  | truncated
  | badHeader
  | badBlock
  | badCode
  | badChecksum
deriving DecidableEq, Repr

def Fault.message : Fault → String
  | .truncated => "the stream ends too early"
  | .badHeader => "invalid gzip header"
  | .badBlock => "invalid block"
  | .badCode => "invalid code"
  | .badChecksum => "checksum or length does not match"

/-- A stream with the number of bits read from it. -/
structure Bits where
  bytes : ByteArray
  position : Nat := 0

abbrev Reader := StateT Bits (Except Fault)

namespace Reader

def bit : Reader Bool := do
  let s ← get
  match s.bytes[s.position / 8]? with
  | none => throw .truncated
  | some b =>
    set { s with position := s.position + 1 }
    return b.toNat.testBit (s.position % 8)

def bits : Nat → Reader Nat
  | 0 => return 0
  | n + 1 => do
    let low ← bit
    let high ← bits n
    return 2 * high + low.toNat

def align : Reader Unit :=
  modify fun s => { s with position := (s.position + 7) / 8 * 8 }

/-- The next byte, when the position is at the beginning of one. -/
def byte : Reader UInt8 := do
  let s ← get
  match s.bytes[s.position / 8]? with
  | none => throw .truncated
  | some b =>
    set { s with position := s.position + 8 }
    return b

def bytes : Nat → Reader Nat
  | 0 => return 0
  | n + 1 => do
    let low ← byte
    let high ← bytes n
    return 256 * high + low.toNat

end Reader

end Ridership.Gzip
