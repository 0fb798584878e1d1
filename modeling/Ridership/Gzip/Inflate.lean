import Ridership.Gzip.PrefixCode

/-!
# Inflating

A compressed stream is a sequence of blocks. A block is stored as it is, or coded with a fixed
code or with codes that it describes. A copy may reach back at most 32768 bytes; what lies before
the first byte reads as zero.
-/

namespace Ridership.Gzip

/-- The lengths of copies: the least length for each symbol from 257 on, with its extra bits. -/
def copyLengths : List (Nat × Nat) :=
  [(3, 0), (4, 0), (5, 0), (6, 0), (7, 0), (8, 0), (9, 0), (10, 0), (11, 1), (13, 1), (15, 1),
    (17, 1), (19, 2), (23, 2), (27, 2), (31, 2), (35, 3), (43, 3), (51, 3), (59, 3), (67, 4),
    (83, 4), (99, 4), (115, 4), (131, 5), (163, 5), (195, 5), (227, 5), (258, 0)]

/-- The distances of copies: the least distance for each symbol, with its extra bits. -/
def copyDistances : List (Nat × Nat) :=
  [(1, 0), (2, 0), (3, 0), (4, 0), (5, 1), (7, 1), (9, 2), (13, 2), (17, 3), (25, 3), (33, 4),
    (49, 4), (65, 5), (97, 5), (129, 6), (193, 6), (257, 7), (385, 7), (513, 8), (769, 8),
    (1025, 9), (1537, 9), (2049, 10), (3073, 10), (4097, 11), (6145, 11), (8193, 12),
    (12289, 12), (16385, 13), (24577, 13)]

/-- The order in which a block gives the word lengths of the code for word lengths. -/
def lengthOrder : List Nat :=
  [16, 17, 18, 0, 8, 7, 9, 6, 10, 5, 11, 4, 12, 3, 13, 2, 14, 1, 15]

def extended (table : List (Nat × Nat)) (symbol : Nat) : Reader Nat :=
  match table[symbol]? with
  | none => throw .badCode
  | some (least, extra) => do
    let n ← Reader.bits extra
    return least + n

/-- Appends `count` bytes, each one equal to the byte `distance` before it. -/
def copyBack (out : ByteArray) (distance : Nat) : Nat → ByteArray
  | 0 => out
  | count + 1 =>
    let b := if distance ≤ out.size then out[out.size - distance]?.getD 0 else 0
    copyBack (out.push b) distance count

/-- Reads symbols up to the end of a block; every symbol takes at least one bit. -/
def inflateSymbols (literals distances : PrefixCode) (out : ByteArray) : Nat → Reader ByteArray
  | 0 => throw .truncated
  | fuel + 1 => do
    let s ← literals.read
    if s < 256 then inflateSymbols literals distances (out.push s.toUInt8) fuel
    else if s = 256 then return out
    else
      let count ← extended copyLengths (s - 257)
      let d ← distances.read
      let distance ← extended copyDistances d
      inflateSymbols literals distances (copyBack out distance count) fuel

def copyStored (out : ByteArray) : Nat → Reader ByteArray
  | 0 => return out
  | count + 1 => do
    let b ← Reader.byte
    copyStored (out.push b) count

/-- The word lengths of a code, of which `left` are missing and `read` have been read, the last
one first. Symbol 16 repeats the last length, 17 and 18 stand for runs of zeros. -/
def readLengths (code : PrefixCode) (read : List Nat) (left : Nat) : Nat → Reader (List Nat)
  | 0 => throw .truncated
  | fuel + 1 =>
    if left = 0 then return read.reverse
    else do
      let s ← code.read
      if s < 16 then readLengths code (s :: read) (left - 1) fuel
      else
        let (least, extra) := if s = 18 then (11, 7) else (3, if s = 17 then 3 else 2)
        let n ← Reader.bits extra
        let count := least + n
        match s, read with
        | 16, [] => throw .badCode
        | _, _ =>
          let value := if s = 16 then read.headD 0 else 0
          if left < count then throw .badCode
          else readLengths code (List.replicate count value ++ read) (left - count) fuel

def readCodes : Reader (PrefixCode × PrefixCode) := do
  let literalCount := (← Reader.bits 5) + 257
  let distanceCount := (← Reader.bits 5) + 1
  let lengthCount := (← Reader.bits 4) + 4
  let given ← (lengthOrder.take lengthCount).mapM fun s => do
    let n ← Reader.bits 3
    return (s, n)
  let lengthCode := PrefixCode.ofLengths
    ((List.range 19).map fun s => ((given.find? fun g => g.1 == s).map Prod.snd).getD 0)
  if literalCount ≤ 286 && distanceCount ≤ 30 && lengthCode.isComplete then
    let all := literalCount + distanceCount
    let lengths ← readLengths lengthCode [] all (all + 1)
    let literals := PrefixCode.ofLengths (lengths.take literalCount)
    let distances := PrefixCode.ofLengths (lengths.drop literalCount)
    if literals.isUsable && distances.isUsable then return (literals, distances)
    else throw .badCode
  else throw .badCode

def fixedLiterals : PrefixCode :=
  .ofLengths (List.replicate 144 8 ++ List.replicate 112 9 ++ List.replicate 24 7 ++
    List.replicate 8 8)

def fixedDistances : PrefixCode :=
  .ofLengths (List.replicate 32 5)

def inflateBlock (out : ByteArray) (kind fuel : Nat) : Reader ByteArray :=
  match kind with
  | 0 => do
    Reader.align
    let count ← Reader.bytes 2
    let complement ← Reader.bytes 2
    if count + complement = 65535 then copyStored out count else throw .badBlock
  | 1 => inflateSymbols fixedLiterals fixedDistances out fuel
  | 2 => do
    let (literals, distances) ← readCodes
    inflateSymbols literals distances out fuel
  | _ => throw .badBlock

/-- Reads blocks up to the last one; every block takes at least one bit. -/
def inflateBlocks (out : ByteArray) (symbols : Nat) : Nat → Reader ByteArray
  | 0 => throw .truncated
  | fuel + 1 => do
    let last ← Reader.bit
    let kind ← Reader.bits 2
    let out ← inflateBlock out kind symbols
    if last then return out else inflateBlocks out symbols fuel

def inflate : Reader ByteArray := do
  let limit := 8 * (← get).bytes.size + 1
  inflateBlocks ByteArray.empty limit limit

end Ridership.Gzip
