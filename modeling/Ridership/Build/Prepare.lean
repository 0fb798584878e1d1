import Ridership.Build.Source

/-!
# Building an index

An index is created, filled from a source and flushed. When the source or the flush fails, no
index is left; a build without a source makes an index of zeros.
-/

namespace Ridership.Build

/-- What a build leaves: the disk, the events it reported, and the store with the summary or what
ended the build. -/
structure Outcome where
  disk : Disk
  events : List Event
  result : Except Halt (Store × Summary)

def discard (d : Disk) (path : String) : Disk :=
  match d.remove path with
  | .ok d => d
  | .error _ => d

def fillFrom (sched : Scheduling) (d : Disk) (store : Store) :
    Option Source → List Event × Except Halt (Store × Summary)
  | none => ([], .ok (store, {}))
  | some source => source.fill sched d store

/-- Builds the index of a network at a path. -/
def prepare (sched : Scheduling) (d : Disk) (path : String) (network : Extent)
    (source : Option Source) : Outcome :=
  match Store.create d path network with
  | (d, .error f) => ⟨d, [], .error (.failed f)⟩
  | (d, .ok store) =>
    match fillFrom sched d store source with
    | (events, .error (.failed f)) => ⟨discard d path, events, .error (.failed f)⟩
    | (events, .error (.misused m)) => ⟨d, events, .error (.misused m)⟩
    | (events, .ok (store, summary)) =>
      match store.flush d with
      | (d, .error f) => ⟨discard d path, events, .error (.failed f)⟩
      | (d, .ok ()) => ⟨d, events, .ok (store, summary)⟩

end Ridership.Build
