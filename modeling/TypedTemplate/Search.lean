/-
Searching by halving: how many elements at the start of a list satisfy a condition, or where a number stands
in a list of numbers, without looking at all of them.
-/

namespace TypedTemplate

/-- How many leading elements satisfy `p`, found by halving; right for a list whose elements that
satisfy `p` all come first. `base` elements are known to satisfy it, and the answer lies within the
`size` elements from there. -/
def partitionFrom {α : Type} (p : α → Bool) (xs : Array α) (base size : Nat) : Nat :=
  if size ≤ 1 then
    match xs[base]? with
    | some x => if p x then base + 1 else base
    | none => base
  else
    let half := size / 2
    let base' :=
      match xs[base + half]? with
      | some x => if p x then base + half else base
      | none => base
    partitionFrom p xs base' (size - half)
termination_by size
decreasing_by omega

/-- How many leading elements satisfy `p`, found by halving. -/
def partitionPoint {α : Type} (p : α → Bool) (xs : List α) : Nat :=
  partitionFrom p xs.toArray 0 xs.length

/-- Where `key` stands among numbers in order, or as an error where it would have to be put. It is looked for
within the `size` elements from `base`. -/
def searchFrom (key : Nat) (xs : Array Nat) (base size : Nat) : Except Nat Nat :=
  if size ≤ 1 then
    match xs[base]? with
    | some x => if x = key then .ok base else if x < key then .error (base + 1) else .error base
    | none => .error base
  else
    let half := size / 2
    let base' :=
      match xs[base + half]? with
      | some x => if key < x then base else base + half
      | none => base
    searchFrom key xs base' (size - half)
termination_by size
decreasing_by omega

/-- Where `key` stands in a list of numbers in order, or as an error where it would have to be put. -/
def binarySearch (key : Nat) (xs : List Nat) : Except Nat Nat := searchFrom key xs.toArray 0 xs.length

end TypedTemplate
