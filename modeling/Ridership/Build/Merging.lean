import Ridership.Build.Config
import Ridership.Store
import Ridership.Tally

/-!
# Merging tallies

The tallies of the tracks arrive one after another, in any order, and are added to the store. Each
arrival is reported by one event. A track that failed ends the merging or is noted, as the policy
has it.
-/

namespace Ridership.Build

structure Progress where
  done : Nat
  total : Nat
  increments : Nat
deriving DecidableEq, Repr

structure Summary where
  total : Nat := 0
  merged : Nat := 0
  increments : Nat := 0
  /-- The number of edges whose counter is not zero. -/
  ridden : Nat := 0
  /-- The tracks left out, in the order of their paths. -/
  failures : List (String × Failure) := []
deriving Repr

def Summary.isComplete (s : Summary) : Bool :=
  s.failures.isEmpty

inductive Event
  | merged (progress : Progress)
  | failed (path : String) (failure : Failure)
  | finished (summary : Summary)
deriving Repr

inductive Halt
  | failed (failure : Failure)
  | misused (misuse : Misuse)
deriving Repr

abbrev Counts := List (EdgeId × UInt32)

/-- What became of a track: the counts of its tally, or why it has none. -/
abbrev Result := String × Except Failure Counts

/-- The state of the merging: the store, the number of tallies merged, the sum of their counts,
and the failed tracks, the last one first. -/
structure Merging where
  store : Store
  merged : Nat := 0
  increments : Nat := 0
  failures : List (String × Failure) := []
deriving Repr

namespace Merging

def done (m : Merging) : Nat :=
  m.merged + m.failures.length

/-- Takes in the result of one track out of `total`. -/
def step (policy : FailurePolicy) (total : Nat) (m : Merging) : Result →
    List Event × Except Halt Merging
  | (_, .ok counts) =>
    match m.store.merge counts with
    | (_, .error misuse) => ([], .error (.misused misuse))
    | (store, .ok sum) =>
      let m := { m with store, merged := m.merged + 1, increments := m.increments + sum }
      ([.merged ⟨m.done, total, m.increments⟩], .ok m)
  | (path, .error failure) =>
    ([.failed path failure],
      match policy with
      | .abortOnFirstError => .error (.failed (.trackFile path failure))
      | .bestEffort => .ok { m with failures := (path, failure) :: m.failures })

/-- Takes in results until one of them ends the merging. -/
def run (policy : FailurePolicy) (total : Nat) (m : Merging) : List Result →
    List Event × Except Halt Merging
  | [] => ([], .ok m)
  | r :: rest =>
    match m.step policy total r with
    | (events, .error halt) => (events, .error halt)
    | (events, .ok m) =>
      let (more, result) := run policy total m rest
      (events ++ more, result)

def summary (m : Merging) (total : Nat) : Summary where
  total
  merged := m.merged
  increments := m.increments
  ridden := m.store.riddenCount
  failures := m.failures.reverse.mergeSort fun a b => Disk.pathLe (bytesOf a.1) (bytesOf b.1)

end Merging

def mergeAll (policy : FailurePolicy) (store : Store) (results : List Result) :
    List Event × Except Halt (Store × Summary) :=
  let total := results.length
  match Merging.run policy total { store } results with
  | (events, .error halt) => (events, .error halt)
  | (events, .ok m) => (events ++ [.finished (m.summary total)], .ok (m.store, m.summary total))

end Ridership.Build
