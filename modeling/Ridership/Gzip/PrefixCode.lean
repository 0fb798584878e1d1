import Ridership.Gzip.Bits

/-!
# Prefix codes

A code is given by the lengths of its code words. Words of one length are consecutive numbers in
the order of their symbols, and shorter words come first.
-/

namespace Ridership.Gzip

/-- How many words have each of the lengths 1 to 15, and the symbols in the order of their words.
-/
structure PrefixCode where
  counts : List Nat
  symbols : Array Nat

namespace PrefixCode

def maxLength : Nat := 15

def ofLengths (lengths : List Nat) : PrefixCode :=
  let indexed := lengths.zipIdx
  let sized := (List.range maxLength).map fun n => indexed.filter fun p => p.1 == n + 1
  ⟨sized.map List.length, (sized.flatten.map Prod.snd).toArray⟩

/-- The share of the possible words that the code takes up, in units of the longest word. -/
def weight (c : PrefixCode) : Nat :=
  c.counts.foldl (fun w n => 2 * w + n) 0

def isComplete (c : PrefixCode) : Bool :=
  c.weight == Nat.pow 2 maxLength

/-- A code of literals or distances has to be complete, unless it has no word or a single word of
one bit. -/
def isUsable (c : PrefixCode) : Bool :=
  c.isComplete || c.counts.tail.all (· == 0) && decide (c.symbols.size ≤ 1)

/-- Reads on after bits with the value `word`. The words of the next length start at `first`, and
their symbols at `index`. -/
def readFrom (c : PrefixCode) (word first index : Nat) : List Nat → Reader Nat
  | [] => throw .badCode
  | count :: rest => do
    let b ← Reader.bit
    let word := 2 * word + b.toNat
    if word < first + count then
      match c.symbols[index + (word - first)]? with
      | some s => return s
      | none => throw .badCode
    else readFrom c word (2 * (first + count)) (index + count) rest

def read (c : PrefixCode) : Reader Nat :=
  readFrom c 0 0 0 c.counts

end PrefixCode

end Ridership.Gzip
