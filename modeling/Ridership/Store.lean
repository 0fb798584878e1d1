import Ridership.Failure
import Ridership.Index.Writing
import Ridership.Network
import Ridership.Routing.Cost

/-!
# The store

A store holds one counter for every edge of a network and an open file that they are flushed to. A
new store is counted into and flushed; one that was loaded from an index can only be read. The
counters stop at the largest 32-bit number.
-/

namespace Ridership

structure Store where
  path : String
  file : FileId
  records : Array UInt32
  readOnly : Bool
deriving Repr

/-- The sum of two counters, or the largest number when the sum is too large. -/
def addClipped (a b : UInt32) : UInt32 :=
  if a.toNat + b.toNat < UInt32.size then a + b else 0xffffffff

/-- The edge count of a network that an index can be made for. Contracted views are refused, and
so are more edges than there are edge numbers. -/
def Extent.admitted (n : Extent) : Except Failure Nat :=
  if n.contracted then .error (.configuration .contracted)
  else if UInt32.size < n.edgeCount then .error (.configuration (.tooManyEdges n.edgeCount))
  else .ok n.edgeCount

namespace Store

/-- A new store of zeros for a network. An index that was at the path is lost; until the first
flush the file holds zeros only, and is no index. -/
def create (d : Disk) (path : String) (network : Extent) : Disk × Except Failure Store :=
  match network.admitted with
  | .error f => (d, .error f)
  | .ok n =>
    match d.create path with
    | .error f => (d, .error (.io path (.disk f)))
    | .ok (d, id) =>
      match d.setLength id (Index.byteSize n) with
      | (d, .error f) => (d, .error (.io path (.disk f)))
      | (d, .ok ()) => (d, .ok ⟨path, id, Array.replicate n 0, false⟩)

/-- The store of the index at a path; nothing when there is no file. The index has to have the
present format and one record for each edge of the network. -/
def load (d : Disk) (path : String) (network : Extent) : Except Failure (Option Store) := do
  let n ← network.admitted
  match d.openFile path with
  | .error .notFound => return none
  | .error f => throw (.io path (.disk f))
  | .ok id =>
    let bytes := d.content id
    match Index.Header.read bytes bytes.length with
    | .error m => throw (.sizeMismatch path m.expected m.found)
    | .ok h =>
      if !h.isCurrent then throw (.formatVersion path Index.magic h.magic)
      else if h.recordCount ≠ n then throw (.sizeMismatch path n h.recordCount)
      else return some ⟨path, id, Index.recordsOf bytes, true⟩

def header (d : Disk) (path : String) : Except Failure Index.Header := do
  match d.openFile path with
  | .error f => throw (.io path (.disk f))
  | .ok id =>
    let bytes := d.content id
    match Index.Header.read (bytes.take Index.headerSize) bytes.length with
    | .error m => throw (.sizeMismatch path m.expected m.found)
    | .ok h => return h

def edgeCount (s : Store) : Nat :=
  s.records.size

def capacity (s : Store) : Nat :=
  Index.byteSize s.edgeCount

def riddenCount (s : Store) : Nat :=
  s.records.toList.countP (0 < ·)

def get (s : Store) (e : EdgeId) : Except Misuse UInt32 :=
  match s.records[e.toNat]? with
  | some n => .ok n
  | none => .error (.outOfRange s.edgeCount e.toNat)

/-- The counter of an edge plus one, so that no edge has popularity zero. -/
def popularity (s : Store) (e : EdgeId) : Except Misuse UInt32 :=
  (s.get e).map (addClipped · 1)

def set (s : Store) (e : EdgeId) (n : UInt32) : Except Misuse Store :=
  if s.readOnly then .error (.readOnly s.path)
  else if e.toNat < s.edgeCount then
    .ok { s with records := s.records.setIfInBounds e.toNat n }
  else .error (.outOfRange s.edgeCount e.toNat)

theorem set_eq_ok {s t : Store} {e : EdgeId} {n : UInt32} (h : s.set e n = .ok t) :
    s.readOnly = false ∧ e.toNat < s.edgeCount ∧
      t = { s with records := s.records.setIfInBounds e.toNat n } := by
  unfold set at h
  split at h
  · cases h
  · next hw =>
    split at h
    · next hb => cases h; exact ⟨by simpa using hw, hb, rfl⟩
    · cases h

def add (s : Store) (e : EdgeId) (n : UInt32) : Except Misuse Store :=
  if s.readOnly then .error (.readOnly s.path)
  else do s.set e (addClipped (← s.get e) n)

/-- Adds the counts of several edges. Yields the store and the sum of the counts; the counts
before a misuse stay added. -/
def merge (s : Store) : List (EdgeId × UInt32) → Store × Except Misuse Nat
  | [] => (s, .ok 0)
  | (e, n) :: rest =>
    match s.add e n with
    | .error m => (s, .error m)
    | .ok s =>
      let (s, sum) := merge s rest
      (s, sum.map (n.toNat + ·))

def flush (s : Store) (d : Disk) : Disk × Except Failure Unit :=
  if s.readOnly then (d, .error (.configuration (.readOnly s.path)))
  else
    let (d, r) := Index.save d s.file s.records
    (d, r.mapError fun f => .io s.path (.disk f))

def cost (s : Store) (base priority : Float) (e : EdgeId) : Except Misuse Float :=
  (s.popularity e).map (Routing.edgeCost base priority)

end Store

end Ridership
