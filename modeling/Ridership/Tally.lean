import Ridership.Network
import Std.Data.TreeMap.Lemmas

/-!
# Tallies of confirmed rides

A track touches edges one after another. A touch is confirmed when it lies on the edge of the
touch before it and that edge is not the one confirmed last. So a stray point never counts, and
staying on an edge counts once.
-/

namespace Ridership

abbrev Tally := Std.TreeMap EdgeId UInt32 compare

namespace Tally

def bump (t : Tally) (e : EdgeId) : Tally :=
  t.insert e (t.getD e 0 + 1)

theorem getD_bump (t : Tally) (e e' : EdgeId) :
    (t.bump e).getD e' 0 = if e = e' then t.getD e 0 + 1 else t.getD e' 0 := by
  simp [bump, Std.TreeMap.getD_insert]

def ofList (edges : List EdgeId) : Tally :=
  edges.foldl bump ∅

/-- The confirmed edges among the touches that follow a touch of `prev`, when `last` was confirmed
last. -/
def confirmedAfter (prev : EdgeId) (last : Option EdgeId) : List EdgeId → List EdgeId
  | [] => []
  | e :: rest =>
    if e = prev ∧ last ≠ some e then e :: confirmedAfter e (some e) rest
    else confirmedAfter e last rest

def confirmed : List EdgeId → List EdgeId
  | [] => []
  | e :: rest => confirmedAfter e none rest

def ofTouches (edges : List EdgeId) : Tally :=
  ofList (confirmed edges)

end Tally

end Ridership
