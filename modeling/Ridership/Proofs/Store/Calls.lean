import Ridership.Proofs.Store.Counting

/-!
# Calls of a store

The users of a store count with it, ask it and flush it, in any order. A misuse stops the call and
not the user: the store can be called again. No call gives a store another file or another number
of counters.
-/

namespace Ridership.Store

/-- What a user asks of a store. The counts of a tally come in the order they are visited in. -/
inductive Call
  | set (e : EdgeId) (n : UInt32)
  | add (e : EdgeId) (n : UInt32)
  | merge (counts : List (EdgeId × UInt32))
  | get (e : EdgeId)
  | popularity (e : EdgeId)
  | flush

inductive Answer
  | done
  | value (n : UInt32)
  | sum (n : Nat)
  | misused (misuse : Misuse)
  | failed (failure : Failure)

def Answer.unlessMisused {α : Type} (answer : α → Answer) : Except Misuse α → Answer
  | .ok a => answer a
  | .error misuse => .misused misuse

def Answer.unlessFailed : Except Failure Unit → Answer
  | .ok () => .done
  | .error failure => .failed failure

/-- The store after a change of one counter, or as it was after a misuse. -/
def orKept (s : Store) : Except Misuse Store → Store
  | .ok t => t
  | .error _ => s

/-- The store and the disk after a call. -/
def after (s : Store) (d : Disk) : Call → Store × Disk
  | .set e n => (s.orKept (s.set e n), d)
  | .add e n => (s.orKept (s.add e n), d)
  | .merge counts => ((s.merge counts).1, d)
  | .get _ | .popularity _ => (s, d)
  | .flush => (s, (s.flush d).1)

def answer (s : Store) (d : Disk) : Call → Answer
  | .set e n => .unlessMisused (fun _ => .done) (s.set e n)
  | .add e n => .unlessMisused (fun _ => .done) (s.add e n)
  | .merge counts => .unlessMisused .sum (s.merge counts).2
  | .get e => .unlessMisused .value (s.get e)
  | .popularity e => .unlessMisused .value (s.popularity e)
  | .flush => .unlessFailed (s.flush d).2

/-- The store and the disk after calls one after another. -/
def run (s : Store) (d : Disk) (calls : List Call) : Store × Disk :=
  calls.foldl (fun now c => now.1.after now.2 c) (s, d)

variable {s : Store} {d : Disk} {c : Call} {calls : List Call}

theorem run_cons : s.run d (c :: calls) = (s.after d c).1.run (s.after d c).2 calls :=
  rfl

theorem recounts_orKept {r : Except Misuse Store} (h : ∀ t, r = .ok t → Recounts s t) :
    Recounts s (s.orKept r) := by
  cases r with
  | ok t => exact h t rfl
  | error misuse => exact .refl

/-- A call keeps the file of a store and its number of counters. -/
theorem recounts_after (s : Store) (d : Disk) (c : Call) : Recounts s (s.after d c).1 := by
  cases c with
  | set e n => exact recounts_orKept fun t h => recounts_set h
  | add e n => exact recounts_orKept fun t h => recounts_add h
  | merge counts => exact recounts_merge counts
  | get _ | popularity _ | flush => exact .refl

theorem recounts_run (s : Store) (d : Disk) (calls : List Call) :
    Recounts s (s.run d calls).1 := by
  induction calls generalizing s d with
  | nil => exact .refl
  | cons c rest ih =>
    rw [run_cons]
    exact (recounts_after s d c).trans (ih _ _)

end Ridership.Store
