import Ridership.Index.Format

/-!
# Writing an index

An index is written over an older one in an order that leaves no mixture behind when the writing
is interrupted: the magic word is cleared, the records are written, a barrier makes both durable,
and only then the magic word is written.
-/

namespace Ridership.Index

inductive Step
  | write (offset : Nat) (bytes : Bytes)
  | barrier
deriving DecidableEq, Repr

def steps (records : Array UInt32) : List Step :=
  [.write 0 (word 0), .write headerSize (body records), .barrier, .write 0 (word magic)]

/-- Carries out steps on an open file, up to the first one that fails. -/
def perform (d : Disk) (id : FileId) : List Step → Disk × Except Disk.Fault Unit
  | [] => (d, .ok ())
  | .barrier :: rest =>
    match d.sync with
    | (d, .ok ()) => perform d id rest
    | (d, .error f) => (d, .error f)
  | .write offset bytes :: rest =>
    match d.write id offset bytes with
    | (d, .ok ()) => perform d id rest
    | (d, .error f) => (d, .error f)

def write (d : Disk) (id : FileId) (records : Array UInt32) : Disk × Except Disk.Fault Unit :=
  perform d id (steps records)

/-- The steps that write an index with these records and make all of it durable. -/
def savingSteps (records : Array UInt32) : List Step :=
  steps records ++ [.barrier]

def save (d : Disk) (id : FileId) (records : Array UInt32) : Disk × Except Disk.Fault Unit :=
  perform d id (savingSteps records)

end Ridership.Index
