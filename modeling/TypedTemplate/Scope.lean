/-
Scopes: the names that the block parameters around a place bind, one frame for each block.
-/

namespace TypedTemplate

/-- The open frames, the innermost first. -/
structure Scope where
  frames : List (List String) := []
  deriving Repr, DecidableEq, Inhabited

/-- Misuse of a scope. -/
inductive ScopeFault where
  /-- A block was left that had not been entered. -/
  | nothingToLeave
  deriving Repr, DecidableEq

def ScopeFault.message : ScopeFault → String
  | .nothingToLeave => "scope popped more times than it was pushed"

namespace Scope

/-- Enters a block that binds `names`. -/
def enter (s : Scope) (names : List String) : Scope := ⟨names :: s.frames⟩

/-- Leaves the innermost block. -/
def leave (s : Scope) : Except ScopeFault Scope :=
  match s.frames with
  | [] => .error .nothingToLeave
  | _ :: outer => .ok ⟨outer⟩

/-- Whether a block around binds `name`. -/
def binds (s : Scope) (name : String) : Bool := s.frames.any (·.contains name)

/-- How many blocks are open. -/
def depth (s : Scope) : Nat := s.frames.length

end Scope

end TypedTemplate
