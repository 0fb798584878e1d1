import Ridership.Failure
import Ridership.Json.Record
import Ridership.Snap.Matching

/-!
# The configuration of a build
-/

namespace Ridership.Build

open Ridership.Json (Fault Tree)

/-- What happens when a track cannot be used. -/
inductive FailurePolicy
  /-- The build ends and leaves no index. -/
  | abortOnFirstError
  /-- The track is left out and reported at the end. -/
  | bestEffort
deriving DecidableEq, Repr

structure Config where
  /-- Points at this distance in metres from every edge, or farther, are left out. -/
  maxSnapDistance : Float := Snap.defaultReach
  /-- The number of workers; zero stands for one per processor. -/
  workers : Nat := 0
  failurePolicy : FailurePolicy := .abortOnFirstError
  /-- Progress is logged every so many tracks. -/
  progressInterval : Nat := 1000
deriving Repr

def Config.workerCount? (c : Config) : Option Nat :=
  if c.workers = 0 then none else some c.workers

def FailurePolicy.ofName (name : String) : Except Fault FailurePolicy :=
  if name = "abort_on_first_error" then .ok .abortOnFirstError
  else if name = "best_effort" then .ok .bestEffort
  else .error (.wrongType "a failure policy")

/-- The policy that a tree writes: its name, or an object with the name as the key of a null. -/
def FailurePolicy.ofTree : Tree → Except Fault FailurePolicy
  | .string raw => (Json.textOf raw).bind ofName
  | .object [(raw, .null)] => (Json.textOf raw).bind ofName
  | _ => .error (.wrongType "a failure policy")

namespace Config

/-- The configuration that a tree writes; what it leaves out keeps its default. -/
def ofTree (t : Tree) : Except Fault Config := do
  let d : Config := {}
  match ← t.fields ["max_snap_distance", "workers", "failure_policy", "progress_interval"] with
  | [distance, workers, policy, interval] =>
    return {
      maxSnapDistance := ← Tree.optional d.maxSnapDistance Tree.float distance
      workers := ← Tree.optional d.workers (Tree.natBelow UInt64.size) workers
      failurePolicy := ← Tree.optional d.failurePolicy FailurePolicy.ofTree policy
      progressInterval := ← Tree.optional d.progressInterval (Tree.natBelow UInt64.size) interval }
  | _ => throw (.wrongType "a configuration")

def checked (c : Config) : Except Failure Config :=
  if c.maxSnapDistance.isFinite && decide (0 < c.maxSnapDistance) then .ok c
  else .error (.configuration (.snapDistance c.maxSnapDistance))

def load (d : Disk) (path : String) : Except Failure Config :=
  match d.read path with
  | .error f => .error (.io path (.disk f))
  | .ok bytes =>
    match (Tree.ofBytes bytes).bind ofTree with
    | .error f => .error (.configuration (.config path f))
    | .ok c => c.checked

end Config

end Ridership.Build
