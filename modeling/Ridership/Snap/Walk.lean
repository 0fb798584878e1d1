/-!
# The nearest of a list of candidates

Candidates arrive by non-decreasing plane distance. Their true distance may be smaller, but never
below the plane distance times a known stretch. The walk keeps the nearest candidate seen and
stops at the first one that this bound rules out.
-/

namespace Ridership.Snap

section

variable {σ α : Type} [Mul α] [LT α] [DecidableLT α]

/-- Continues the walk with `best`, whose distance is `d`, as the nearest candidate seen. -/
def nearestFrom (plane distance : σ → α) (stretch : α) (best : σ) (d : α) : List σ → σ × α
  | [] => (best, d)
  | s :: rest =>
    if d < plane s * stretch then (best, d)
    else
      let d' := distance s
      if d' < d then nearestFrom plane distance stretch s d' rest
      else nearestFrom plane distance stretch best d rest

/-- The nearest candidate that the walk meets, with its distance. -/
def nearest? (plane distance : σ → α) (stretch : α) : List σ → Option (σ × α)
  | [] => none
  | s :: rest => some (nearestFrom plane distance stretch s (distance s) rest)

theorem nearest?_eq_none_iff {plane distance : σ → α} {stretch : α} {l : List σ} :
    nearest? plane distance stretch l = none ↔ l = [] := by
  cases l <;> simp [nearest?]

end

end Ridership.Snap
