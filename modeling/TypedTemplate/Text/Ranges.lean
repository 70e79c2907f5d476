/-
Classes of characters given as ranges or as runs of code points.
-/

namespace TypedTemplate.Text

/-- Whether a code point lies in one of the ranges, both ends included. -/
def inRanges (table : List (Nat × Nat)) (n : Nat) : Bool :=
  table.any fun (lo, hi) => lo ≤ n && n ≤ hi

/-- Whether a code point lies in a class. A table of runs holds the number of code points up to the first one of the
class, the number of those that are in it, and so on in turn. -/
def inRuns : List Nat → Nat → Bool
  | gap :: run :: runs, n => gap ≤ n && (n < gap + run || inRuns runs (n - (gap + run)))
  | _, _ => false

end TypedTemplate.Text
