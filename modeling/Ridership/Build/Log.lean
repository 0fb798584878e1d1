import Ridership.Build.Merging

/-!
# The log of a build

Progress is logged once for every block of so many tracks, with the first track merged after the
block is full. Failures and the result are logged always.
-/

namespace Ridership.Build

inductive Level
  | info
  | warn
deriving DecidableEq, Repr

def Level.name : Level → String
  | .info => "INFO"
  | .warn => "WARN"

structure Line where
  level : Level
  text : String
deriving DecidableEq, Repr

def Line.render (l : Line) : String :=
  s!"{l.level.name} {l.text}"

/-- The state of a log: the size of a block, and the last block that was logged. -/
structure Log where
  interval : Nat
  loggedBlock : Nat := 0
deriving DecidableEq, Repr

namespace Log

/-- A log with blocks of `interval` tracks, or of one if that is zero. -/
def ofInterval (interval : Nat) : Log :=
  { interval := max interval 1 }

def report (l : Log) : Event → Log × List Line
  | .merged p =>
    let block := p.done / l.interval
    if l.loggedBlock < block then
      ({ l with loggedBlock := block },
        [⟨.info, s!"Processed {p.done}/{p.total} track files, " ++
          s!"{p.increments} increments applied"⟩])
    else (l, [])
  | .failed path failure => (l, [⟨.warn, s!"Skipping track file {path}: {failure.message}"⟩])
  | .finished s =>
    (l, [⟨.info, s!"Tallied {s.merged} of {s.total} track files: {s.increments} increments " ++
      s!"over {s.ridden} edges, {s.failures.length} failed"⟩])

def reportAll (l : Log) : List Event → List (List Line)
  | [] => []
  | e :: rest =>
    let (l, lines) := l.report e
    lines :: reportAll l rest

end Log

end Ridership.Build
