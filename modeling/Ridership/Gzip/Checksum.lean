/-!
# The 32-bit cyclic redundancy check

The check of the bytes of a gzip member, with the reflected polynomial `0xedb88320`.
-/

namespace Ridership.Gzip

def shiftBit (r : UInt32) : UInt32 :=
  if r &&& 1 = 1 then (r >>> 1) ^^^ 0xedb88320 else r >>> 1

/-- What the eight bits of each byte do to an empty register. -/
def checksumTable : Array UInt32 :=
  (Array.range 256).map fun n => Nat.repeat shiftBit 8 n.toUInt32

def checksumStep (r : UInt32) (b : UInt8) : UInt32 :=
  (checksumTable[((r ^^^ b.toUInt32) &&& 0xff).toNat]?.getD 0) ^^^ (r >>> 8)

def checksum (bytes : List UInt8) : UInt32 :=
  bytes.foldl checksumStep 0xffffffff ^^^ 0xffffffff

end Ridership.Gzip
