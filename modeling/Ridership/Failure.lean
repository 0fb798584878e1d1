import Ridership.Decimal.Shortest
import Ridership.Disk.Basic
import Ridership.Gzip.Bits
import Ridership.Json.Fault
import Ridership.Text.Quoted

/-!
# Failures

Everything that can go wrong while an index is built, loaded or queried, by cause, and the words
for it. Misuse of a store is kept apart: it is a mistake of the caller and not of the data.
-/

namespace Ridership

inductive Misconfiguration
  | contracted
  | tooManyEdges (count : Nat)
  | readOnly (path : String)
  | snapDistance (value : Float)
  | config (path : String) (fault : Json.Fault)
  | network (path reason : String)
  | edgeWays (path reason : String)
  | undeclaredEdge (path : String) (declared : Nat) (edge : Nat)
  | workers (reason : String)
  | other (text : String)
deriving Repr

inductive ReadFault
  | disk (fault : Disk.Fault)
  | gzip (fault : Gzip.Fault)
  | other (text : String)
deriving Repr

inductive TrackFault
  | stream (fault : ReadFault)
  | json (fault : Json.Fault)
  | noPoints
  | other (text : String)
deriving Repr

inductive TableFault
  | json (fault : Json.Fault)
  | wayId (key : String)
  | other (text : String)
deriving Repr

/-- The failures of the library. -/
inductive Failure
  | configuration (cause : Misconfiguration)
  | formatVersion (path : String) (expected found : UInt32)
  | sizeMismatch (path : String) (expected found : Nat)
  | io (path : String) (cause : ReadFault)
  | malformedTrack (path : String) (cause : TrackFault)
  | malformedTable (path : String) (cause : TableFault)
  | trackFile (path : String) (source : Failure)
deriving Repr

namespace Misconfiguration

def message : Misconfiguration → String
  | .contracted => "build the popularity index against the base network, not a contracted view"
  | .tooManyEdges n => s!"{n} edges exceed the addressable edge id range"
  | .readOnly path => s!"popularity index {path} was opened read-only"
  | .snapDistance x =>
    s!"max_snap_distance must be a positive number of meters, got {Decimal.floatText x}"
  | .config path fault => s!"invalid build config {path}: {fault.message}"
  | .network path reason => s!"cannot read network geometry {path}: {reason}"
  | .edgeWays path reason => s!"cannot read edge/way mapping {path}: {reason}"
  | .undeclaredEdge path declared edge =>
    s!"network {path} declares {declared} edges but references edge id {edge}"
  | .workers reason => s!"cannot start worker pool: {reason}"
  | .other text => text

end Misconfiguration

def ReadFault.message : ReadFault → String
  | .disk fault => fault.message
  | .gzip fault => fault.message
  | .other text => text

def TrackFault.message : TrackFault → String
  | .stream fault => s!"bad gzip stream: {fault.message}"
  | .json fault => fault.message
  | .noPoints => "missing track_points array"
  | .other text => text

def TableFault.message : TableFault → String
  | .json fault => fault.message
  | .wayId key => s!"way id {Text.quote key} is not an integer"
  | .other text => text

def hexWord (n : UInt32) : String :=
  let digits := Text.hex n.toNat
  String.ofList ('0' :: 'x' :: List.replicate (8 - digits.length) '0' ++ digits)

namespace Failure

def message : Failure → String
  | .configuration cause => s!"configuration error: {cause.message}"
  | .formatVersion path expected found =>
    s!"incorrect popularity index version in {path}: expected magic {hexWord expected}, " ++
      s!"found {hexWord found}"
  | .sizeMismatch path expected found =>
    s!"popularity index {path} holds {found} records but the network has {expected} edges"
  | .io path cause => s!"I/O error on {path}: {cause.message}"
  | .malformedTrack path cause => s!"malformed track file {path}: {cause.message}"
  | .malformedTable path cause => s!"malformed popularity file {path}: {cause.message}"
  | .trackFile path source => s!"track file {path} aborted the build: {source.message}"

/-- What caused the failure, in words, where the failure reports something else. -/
def cause? : Failure → Option String
  | .io _ cause => some cause.message
  | .trackFile _ source => some source.message
  | _ => none

end Failure

/-- The mistakes that a caller of a store can make. -/
inductive Misuse
  | outOfRange (length index : Nat)
  | readOnly (path : String)
deriving DecidableEq, Repr

def Misuse.message : Misuse → String
  | .outOfRange length index =>
    s!"index out of bounds: the len is {length} but the index is {index}"
  | .readOnly path => s!"popularity index {path} is read-only"

end Ridership
