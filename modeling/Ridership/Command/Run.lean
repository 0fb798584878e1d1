import Ridership.Build.Prepare
import Ridership.Command.Request
import Ridership.Network.Document

/-!
# Carrying out requests

A request is carried out on a disk. It prints lines, reports failures on a second list of lines,
and ends with zero, with one after a failure, with two when the command line could not be
understood, or with 101 when a store was misused.
-/

namespace Ridership.Command

open Ridership.Build (Config Halt Outcome Scheduling Source Summary)

structure Output where
  code : Nat := 0
  out : List String := []
  err : List String := []
  disk : Disk

/-- A command that failed after printing some lines. -/
def Output.failed (d : Disk) (out : List String) (text : String) : Output :=
  { code := 1, out, err := [s!"Error: {text}"], disk := d }

/-- A command that misused a store after printing some lines. -/
def Output.misused (d : Disk) (out : List String) (m : Misuse) : Output :=
  { code := 101, out, err := [m.message], disk := d }

def configOf (d : Disk) (r : BuildRequest) : Except String Config := do
  let c ← match r.config with
    | none => pure {}
    | some path => (Config.load d path).mapError fun _ => s!"Failed to load config {path}"
  let c : Config := { c with
    workers := r.workers.getD c.workers
    maxSnapDistance := r.maxSnapDistance.getD c.maxSnapDistance
    failurePolicy := if r.bestEffort then .bestEffort else c.failurePolicy }
  c.checked.mapError Failure.message

def networkOf (d : Disk) (path : String) : Except String Network :=
  (Network.load d path).mapError fun _ => s!"Failed to load network {path}"

def sourceFor (d : Disk) (n : Network) (c : Config) :
    Option SourceRequest → Except String (Option Source)
  | none => .ok none
  | some (.tracks folder) =>
    ((Source.ofTracks folder (Snap.Index.ofEdges n.edges).locate c).map some).mapError
      Failure.message
  | some (.ways file edgeWays) =>
    ((Way.EdgeMap.load d edgeWays).map fun m => some (.ways file m)).mapError Failure.message

def skippedLines (s : Summary) : List String :=
  s.failures.map fun (path, f) => s!"skipped {path}: {f.message}"

def builtLine (path : String) (s : Summary) : String :=
  s!"Wrote {path} ({s.merged} files merged, {s.failures.length} failed, " ++
    s!"{s.ridden} edges with evidence)"

/-- What is known before a build starts: the network and the source. -/
def prepared (d : Disk) (network : String) (source : Option SourceRequest) (r : BuildRequest) :
    Except String (Network × Option Source) := do
  let c ← configOf d r
  let n ← networkOf d network
  return (n, ← sourceFor d n c source)

/-- Builds an index, as it comes about on a machine with this scheduling. -/
def build (d : Disk) (network output : String) (source : Option SourceRequest)
    (r : BuildRequest) (sched : Scheduling := {}) : Output :=
  match prepared d network source r with
  | .error text => .failed d [] text
  | .ok (n, source) =>
    let o := Build.prepare sched d output n.extent source
    match o.result with
    | .error (.failed _) => .failed o.disk [] s!"Failed to build index {output}"
    | .error (.misused m) => .misused o.disk [] m
    | .ok (_, s) => { out := [builtLine output s], err := skippedLines s, disk := o.disk }

/-- Why a query ends before its last edge. -/
inductive Interruption
  | failed (text : String)
  | misused (misuse : Misuse)
deriving Repr

/-- The lines for edges up to the first one that the network does not have. The store is not asked
about that one. -/
def queryLines (s : Store) : List EdgeId → List String × Option Interruption
  | [] => ([], none)
  | e :: rest =>
    if s.edgeCount ≤ e.toNat then
      ([], some (.failed s!"Edge {e.toNat} is out of range (network has {s.edgeCount} edges)"))
    else
      match s.popularity e with
      | .error m => ([], some (.misused m))
      | .ok n =>
        let (lines, interruption) := queryLines s rest
        (s!"{e.toNat}\t{n.toNat}" :: lines, interruption)

def query (d : Disk) (index network : String) (edges : List EdgeId) : Output :=
  match networkOf d network with
  | .error text => .failed d [] text
  | .ok n =>
    match Store.load d index n.extent with
    | .error f => .failed d [] f.message
    | .ok none => .failed d [] s!"No popularity index at {index}"
    | .ok (some s) =>
      match queryLines s edges with
      | (lines, none) => { out := lines, disk := d }
      | (lines, some (.failed text)) => .failed d lines text
      | (lines, some (.misused m)) => .misused d lines m

def headerLines (path : String) (h : Index.Header) : List String :=
  let age := if h.isCurrent then "current" else "outdated"
  [s!"File:     {path}", s!"Magic:    {hexWord h.magic} ({age})", s!"Records:  {h.recordCount}"]

def recordLines (s : Store) : List String :=
  let counters := s.records.toList.map UInt32.toNat
  [s!"Edges with evidence: {s.riddenCount}",
    s!"Max raw count:       {counters.foldl max 0}",
    s!"Total increments:    {counters.foldl (· + ·) 0}"]

def inspect (d : Disk) (index : String) : Output :=
  match Store.header d index with
  | .error f => .failed d [] f.message
  | .ok h =>
    let lines := headerLines index h
    if h.isCurrent then
      match Store.load d index ⟨h.recordCount, false⟩ with
      | .error f => .failed d lines f.message
      | .ok none => .failed d lines s!"Index {index} disappeared while reading it"
      | .ok (some s) => { out := lines ++ recordLines s, disk := d }
    else { out := lines, disk := d }

def usage : List String :=
  ["Usage: popularity-index build <NETWORK> <OUTPUT> [--tracks <DIR> | --way-popularity <FILE>]",
    "                              [--edge-ways <FILE>] [-c, --config <FILE>] [-w, --workers <N>]",
    "                              [--best-effort] [--max-snap-distance <METERS>]",
    "       popularity-index query <INDEX> <NETWORK> <EDGES>...",
    "       popularity-index inspect <INDEX>"]

def Request.run (d : Disk) : Request → Output
  | .build network output source options => Command.build d network output source options
  | .query index network edges => Command.query d index network edges
  | .inspect index => Command.inspect d index

def run (d : Disk) (args : List String) : Output :=
  match requestOf args with
  | .ok request => request.run d
  | .error .help => { out := usage, disk := d }
  | .error .usage => { code := 2, err := usage, disk := d }

end Ridership.Command
