import Ridership.Disk.Basic

/-!
# The format of an index

An index is a sequence of 32-bit words, low byte first: a magic word, and then one record for
every edge in the order of the edge numbers. The number of records follows from the length of the
file.
-/

namespace Ridership.Index

def magic : UInt32 := 19153

def headerSize : Nat := 4

def recordWidth : Nat := 4

def byteSize (n : Nat) : Nat :=
  headerSize + n * recordWidth

def word (n : UInt32) : Bytes :=
  let v := n.toNat
  [UInt8.ofNat v, UInt8.ofNat (v / 256), UInt8.ofNat (v / 65536), UInt8.ofNat (v / 16777216)]

def ofWord (a b c d : UInt8) : UInt32 :=
  UInt32.ofNat (a.toNat + 256 * (b.toNat + 256 * (c.toNat + 256 * d.toNat)))

theorem length_word (n : UInt32) : (word n).length = recordWidth := rfl

theorem ofWord_word (n : UInt32) :
    ofWord (UInt8.ofNat n.toNat) (UInt8.ofNat (n.toNat / 256)) (UInt8.ofNat (n.toNat / 65536))
      (UInt8.ofNat (n.toNat / 16777216)) = n := by
  have h := n.toNat_lt
  apply UInt32.toNat_inj.mp
  simp only [ofWord, UInt32.toNat_ofNat', UInt8.toNat_ofNat']
  omega

def body (records : Array UInt32) : Bytes :=
  records.toList.flatMap word

def image (records : Array UInt32) : Bytes :=
  word magic ++ body records

/-- Appends the words that a text of bytes consists of; bytes that make no word are dropped. -/
def appendWords (records : Array UInt32) : Bytes → Array UInt32
  | a :: b :: c :: d :: rest => appendWords (records.push (ofWord a b c d)) rest
  | _ => records

def recordsOf (bytes : Bytes) : Array UInt32 :=
  appendWords #[] (bytes.drop headerSize)

theorem length_body (records : Array UInt32) :
    (body records).length = records.size * recordWidth := by
  have h : ∀ l : List UInt32, (l.flatMap word).length = l.length * recordWidth := by
    intro l
    induction l with
    | nil => rfl
    | cons n rest ih => simp [List.flatMap_cons, length_word, ih, Nat.succ_mul, Nat.add_comm]
  simpa [body] using h records.toList

theorem length_image (records : Array UInt32) :
    (image records).length = byteSize records.size := by
  simp [image, byteSize, length_word, length_body, headerSize, recordWidth]

theorem appendWords_flatMap (records : Array UInt32) (l : List UInt32) :
    appendWords records (l.flatMap word) = records ++ l := by
  induction l generalizing records with
  | nil => simp [appendWords]
  | cons n rest ih =>
    have step : appendWords records (word n ++ rest.flatMap word)
        = appendWords (records.push n) (rest.flatMap word) := by
      simp only [word, List.cons_append, List.nil_append, appendWords, ofWord_word]
    rw [List.flatMap_cons, step, ih]
    simp

theorem recordsOf_image (records : Array UInt32) : recordsOf (image records) = records := by
  have h : (image records).drop headerSize = body records :=
    List.drop_left' (length_word magic)
  simp [recordsOf, h, body, appendWords_flatMap]

/-- What the start and the length of an index file tell. -/
structure Header where
  magic : UInt32
  recordCount : Nat
deriving DecidableEq, Repr

def Header.isCurrent (h : Header) : Bool :=
  h.magic == Index.magic

/-- A file has another size than it should have. -/
structure SizeMismatch where
  expected : Nat
  found : Nat
deriving DecidableEq, Repr

/-- The header of a file of `length` bytes that starts with `start`. A file without a whole header
lacks bytes; one that ends inside a record lacks that record. -/
def Header.read (start : Bytes) (length : Nat) : Except SizeMismatch Header :=
  match start with
  | a :: b :: c :: d :: _ =>
    if length < headerSize then .error ⟨headerSize, length⟩
    else
      let count := (length - headerSize) / recordWidth
      if (length - headerSize) % recordWidth = 0 then .ok ⟨ofWord a b c d, count⟩
      else .error ⟨count + 1, count⟩
  | _ => .error ⟨headerSize, length⟩

end Ridership.Index
