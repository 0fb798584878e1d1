import Ridership.Gzip.Checksum
import Ridership.Gzip.Inflate

/-!
# Gzip members

A gzip file starts with a member: a header, a compressed stream, and the checksum and length of
the bytes in it. What follows the first member is not read.
-/

namespace Ridership.Gzip

def maxText : Nat := 65535

/-- Skips bytes up to a zero, at most `left` before it. -/
def skipText (left : Nat) : Reader Unit := do
  let b ← Reader.byte
  if b = 0 then return ()
  else match left with
    | 0 => throw .badHeader
    | left + 1 => skipText left

def skipBytes : Nat → Reader Unit
  | 0 => return ()
  | n + 1 => do
    let _ ← Reader.byte
    skipBytes n

/-- Reads the header of a member. The flags announce an extra field, a name, a comment and a
checksum of the header; the others have to be clear. -/
def readHeader : Reader Unit := do
  let magic ← Reader.bytes 2
  let method ← Reader.byte
  let flags ← Reader.bytes 1
  skipBytes 6
  if magic ≠ 0x8b1f ∨ method ≠ 8 ∨ 32 ≤ flags then throw .badHeader
  if flags.testBit 2 then
    let n ← Reader.bytes 2
    skipBytes n
  if flags.testBit 3 then skipText maxText
  if flags.testBit 4 then skipText maxText
  if flags.testBit 1 then
    let s ← get
    let expected := (checksum (s.bytes.extract 0 (s.position / 8)).toList).toNat % 65536
    let found ← Reader.bytes 2
    if found ≠ expected then throw .badHeader

def readMember : Reader (List UInt8) := do
  readHeader
  let out ← inflate
  Reader.align
  let check ← Reader.bytes 4
  let size ← Reader.bytes 4
  let content := out.toList
  if check = (checksum content).toNat ∧ size = out.size % UInt32.size then return content
  else throw .badChecksum

def isGzip (bytes : List UInt8) : Bool :=
  [0x1f, 0x8b].isPrefixOf bytes

def gunzip (bytes : List UInt8) : Except Fault (List UInt8) :=
  (readMember.run ⟨bytes.toByteArray, 0⟩).map Prod.fst

def plain (bytes : List UInt8) : Except Fault (List UInt8) :=
  if isGzip bytes then gunzip bytes else .ok bytes

end Ridership.Gzip
