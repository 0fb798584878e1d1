import Ridership.Command.Grammar
import Ridership.Decimal.Real
import Ridership.Network

/-!
# Requests

The command line asks to build an index, to query one for the popularity of edges, or to inspect
one.
-/

namespace Ridership.Command

structure BuildRequest where
  network : Option String := none
  output : Option String := none
  tracks : Option String := none
  wayPopularity : Option String := none
  edgeWays : Option String := none
  config : Option String := none
  workers : Option Nat := none
  bestEffort : Bool := false
  maxSnapDistance : Option Float := none
deriving Repr

structure QueryRequest where
  index : Option String := none
  network : Option String := none
  edges : List EdgeId := []
deriving Repr

inductive SourceRequest
  | tracks (folder : String)
  | ways (file edgeWays : String)
deriving DecidableEq, Repr

inductive Request
  | build (network output : String) (source : Option SourceRequest) (options : BuildRequest)
  | query (index network : String) (edges : List EdgeId)
  | inspect (index : String)
deriving Repr

def Request.paths : Request → List String
  | .build network output source options =>
    let sources := match source with
      | none => []
      | some (.tracks folder) => [folder]
      | some (.ways file edgeWays) => [file, edgeWays]
    [network, output] ++ options.config.toList ++ sources
  | .query index network _ => [index, network]
  | .inspect index => [index]

/-- The file that a request writes. -/
def Request.target? : Request → Option String
  | .build _ output _ _ => some output
  | _ => none

def pathOf (arg : String) : Except Refusal String :=
  if arg = "" then .error .usage else .ok arg

/-- An option is given once, and with a value that can be read. -/
def once {α : Type} (old : Option α) (new : Option α) : Except Refusal (Option α) :=
  match old, new with
  | none, some x => .ok (some x)
  | _, _ => .error .usage

def oncePath (old : Option String) (arg : String) : Except Refusal (Option String) :=
  (pathOf arg).bind fun p => once old (some p)

def edgeOf (arg : String) : Except Refusal EdgeId :=
  match Decimal.int? arg.toList with
  | some (.ofNat n) => if n < UInt32.size then .ok (UInt32.ofNat n) else .error .usage
  | _ => .error .usage

def buildGrammar : Grammar BuildRequest where
  options := [
    { word := "tracks"
      effect := .valued fun r v => return { r with tracks := ← oncePath r.tracks v } },
    { word := "way-popularity"
      effect := .valued fun r v =>
        return { r with wayPopularity := ← oncePath r.wayPopularity v } },
    { word := "edge-ways"
      effect := .valued fun r v => return { r with edgeWays := ← oncePath r.edgeWays v } },
    { word := "config"
      letter := some 'c'
      effect := .valued fun r v => return { r with config := ← oncePath r.config v } },
    { word := "workers"
      letter := some 'w'
      effect := .valued fun r v =>
        return { r with workers := ← once r.workers (Decimal.natBelow? UInt64.size v.toList) } },
    { word := "best-effort"
      effect := .flag fun r =>
        if r.bestEffort then throw .usage else return { r with bestEffort := true } },
    { word := "max-snap-distance"
      effect := .valued fun r v =>
        return { r with
          maxSnapDistance := ← once r.maxSnapDistance (Decimal.real? v.toList) } }]
  operand r v :=
    match r.network, r.output with
    | none, _ => (pathOf v).map fun p => { r with network := some p }
    | some _, none => (pathOf v).map fun p => { r with output := some p }
    | some _, some _ => .error .usage

def queryGrammar : Grammar QueryRequest where
  options := []
  operand r v :=
    match r.index, r.network with
    | none, _ => (pathOf v).map fun p => { r with index := some p }
    | some _, none => (pathOf v).map fun p => { r with network := some p }
    | some _, some _ => (edgeOf v).map fun e => { r with edges := r.edges ++ [e] }

def inspectGrammar : Grammar (Option String) where
  options := []
  operand r v := oncePath r v

/-- The source of a build. Tracks exclude a table of ways, and a table needs the ways of the
edges. -/
def sourceOf (r : BuildRequest) : Except Refusal (Option SourceRequest) :=
  match r.tracks, r.wayPopularity, r.edgeWays with
  | none, none, _ => .ok none
  | some folder, none, _ => .ok (some (.tracks folder))
  | none, some file, some edgeWays => .ok (some (.ways file edgeWays))
  | _, _, _ => .error .usage

def commandNames : List String :=
  ["build", "query", "inspect", "help"]

def requestOf : List String → Except Refusal Request
  | "build" :: args => do
    let r ← buildGrammar.read {} args
    match r.network, r.output with
    | some network, some output => return .build network output (← sourceOf r) r
    | _, _ => throw .usage
  | "query" :: args => do
    match ← queryGrammar.read {} args with
    | ⟨some index, some network, e :: edges⟩ => return .query index network (e :: edges)
    | _ => throw .usage
  | "inspect" :: args => do
    match ← inspectGrammar.read none args with
    | some index => return .inspect index
    | none => throw .usage
  | ["help"] => .error .help
  | ["help", name] => .error (if commandNames.contains name then .help else .usage)
  | arg :: _ =>
    if arg = "--help" || "-h".toList.isPrefixOf arg.toList then .error .help else .error .usage
  | [] => .error .usage

end Ridership.Command
