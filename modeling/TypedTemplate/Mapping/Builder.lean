/-
Building a mapping tree beside the code it describes. Text is appended, frames are opened and closed
around it, and a closed frame becomes a node of the frame around it. Frames close in reverse order of
opening; a frame that holds no text leaves no node unless it is asked to. The steps take the place where the code ends,
which a builder keeps as a position.
-/
import TypedTemplate.Mapping.Tree

namespace TypedTemplate.Mapping

/-- Misuse of a builder. -/
inductive BuilderFault where
  /-- A frame was closed before one opened after it. -/
  | closedOutOfOrder
  /-- The build ended with a frame open. -/
  | unclosedFrames
  /-- A frame would stop before it starts: the code has outgrown its positions. -/
  | disordered (start stop : Nat)
  deriving Repr, DecidableEq

def BuilderFault.message : BuilderFault → String
  | .closedOutOfOrder => "mapping frames must be closed in reverse order of opening"
  | .unclosedFrames => "unclosed mapping frames at finish"
  | .disordered start stop => "span start " ++ toString start ++ " is after end " ++ toString stop

/-- An open frame: how many frames were open with it, and where it started. -/
structure Frame where
  depth : Nat
  start : Nat
  deriving Repr, DecidableEq

/-- The code so far, the finished nodes of the root, and those of each open frame, the innermost
frame first. -/
structure Builder where
  output : String := ""
  root : List Tree := []
  frames : List (List Tree) := []

namespace Builder

/-- The length of the code so far. -/
def length (b : Builder) : Nat := Text.size b.output

/-- The position at which the code ends so far. -/
def offset (b : Builder) : Nat := position b.length

/-- Appends code that no node stands for. -/
def text (b : Builder) (s : String) : Builder := { b with output := b.output ++ s }

/-- Opens a frame for code that ends at `place`. -/
def openAt (b : Builder) (place : Nat) : Frame × Builder :=
  (⟨b.frames.length + 1, place⟩, { b with frames := [] :: b.frames })

/-- Adds a node to the innermost open frame. -/
def add (b : Builder) (t : Tree) : Builder :=
  match b.frames with
  | [] => { b with root := b.root ++ [t] }
  | f :: fs => { b with frames := (f ++ [t]) :: fs }

/-- Closes a frame of code that ends at `place`, and records a node for what it holds. -/
def closeAt (b : Builder) (place : Nat) (frame : Frame) (label : Label) (source : Span) (keepEmpty : Bool) :
    Except BuilderFault Builder :=
  if frame.depth = b.frames.length then
    match b.frames with
    | [] => .error .closedOutOfOrder
    | children :: outer =>
      let generated : Span := ⟨frame.start, place⟩
      let closed := { b with frames := outer }
      if place < frame.start then .error (.disordered frame.start place)
      else if keepEmpty || !generated.isEmpty then
        .ok (closed.add (.mk label source generated children))
      else .ok closed
  else .error .closedOutOfOrder

/-- Ends the build of code that ends at `place`: the code, and a root node over all of it. -/
def finishAt (b : Builder) (place : Nat) (label : Label) (source : Span) : Except BuilderFault (String × Tree) :=
  match b.frames with
  | [] => .ok (b.output, .mk label source ⟨0, place⟩ b.root)
  | _ :: _ => .error .unclosedFrames

def openFrame (b : Builder) : Frame × Builder := b.openAt b.offset

def closeFrame (b : Builder) (frame : Frame) (label : Label) (source : Span) (keepEmpty : Bool) :
    Except BuilderFault Builder :=
  b.closeAt b.offset frame label source keepEmpty

def finish (b : Builder) (label : Label) (source : Span) : Except BuilderFault (String × Tree) :=
  b.finishAt b.offset label source

end Builder

end TypedTemplate.Mapping
