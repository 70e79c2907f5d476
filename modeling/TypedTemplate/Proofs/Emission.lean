/-
Emission as a run. A draft says what is written; here it is played step by step with a builder that
keeps a stack of open frames and with a scope that is entered and left, both of which can be misused.
Playing a draft never misuses either, leaves frames and scope as it found them, and gives the code
and the mapping that are read off the draft.
-/
import TypedTemplate.Compiled
import TypedTemplate.Mapping.Builder
import Mathlib.Tactic.SplitIfs

namespace TypedTemplate

open Mapping (Tree Label Builder BuilderFault)

/-! ## The run -/

/- Drafts have lengths without a limit, and so have the places where their frames are opened and closed. -/

namespace Mapping.Builder

def openAtEnd (b : Builder) : Mapping.Frame × Builder := b.openAt b.length

def closeAtEnd (b : Builder) (frame : Mapping.Frame) (label : Label) (source : Span) (keepEmpty : Bool) :
    Except BuilderFault Builder :=
  b.closeAt b.length frame label source keepEmpty

def finishAtEnd (b : Builder) (label : Label) (source : Span) : Except BuilderFault (String × Tree) :=
  b.finishAt b.length label source

end Mapping.Builder

/-- The code so far with its frames, and the blocks around the place where it goes on. -/
structure Emission where
  builder : Builder := {}
  scope : Scope := {}

/-- Why a run stops before its end. -/
inductive EmissionFault where
  | builder (fault : BuilderFault)
  | scope (fault : ScopeFault)
  deriving Repr, DecidableEq

namespace Emission

/-- Writes code that no part of the template stands for alone. -/
def text (e : Emission) (s : String) : Emission := { e with builder := e.builder.text s }

/-- Runs `inside` in a frame of its own. -/
def framed (label : Label) (source : Span) (keepEmpty : Bool)
    (inside : Emission → Except EmissionFault Emission) (e : Emission) :
    Except EmissionFault Emission := do
  let (frame, builder) := e.builder.openAtEnd
  let e ← inside { e with builder }
  let builder ← (e.builder.closeAtEnd frame label source keepEmpty).mapError .builder
  return { e with builder }

/-- Runs `inside` in a block that binds `names`. -/
def inBlock (names : List String) (inside : Emission → Except EmissionFault Emission)
    (e : Emission) : Except EmissionFault Emission := do
  let e ← inside { e with scope := e.scope.enter names }
  let scope ← e.scope.leave.mapError .scope
  return { e with scope }

end Emission

namespace Draft

mutual

/-- Plays a piece of a template that starts at `delta`. -/
def playPiece (delta : Nat) : Piece → Emission → Except EmissionFault Emission
  | .text s, e => .ok (e.text s)
  | .mark label span keepEmpty inside, e =>
    e.framed label (span.shift delta) keepEmpty (play delta inside)
  | .block names inside, e => e.inBlock names (play delta inside)
  | .issue _ _, e => .ok e
  | .directive _ _ _, e => .ok e

/-- Plays pieces one after another. -/
def play (delta : Nat) : List Piece → Emission → Except EmissionFault Emission
  | [], e => .ok e
  | p :: ps, e => (playPiece delta p e).bind (play delta ps)

end

end Draft

/-! ## What a run adds -/

namespace Mapping.Builder

variable (b : Builder) (s : String) (ts : List Tree)

/-- A builder with more code and with more nodes in its innermost frame. -/
def put (b : Builder) (s : String) (ts : List Tree) : Builder :=
  match b.frames with
  | [] => { output := b.output ++ s, root := b.root ++ ts, frames := [] }
  | f :: fs => { output := b.output ++ s, root := b.root, frames := (f ++ ts) :: fs }

@[simp] theorem put_empty : b.put "" [] = b := by
  obtain ⟨output, root, frames⟩ := b
  cases frames <;> simp [put]

theorem put_put (s s' : String) (ts ts' : List Tree) : (b.put s ts).put s' ts' = b.put (s ++ s') (ts ++ ts') := by
  obtain ⟨output, root, frames⟩ := b
  cases frames <;> simp [put, String.append_assoc]

theorem text_eq_put : b.text s = b.put s [] := by
  obtain ⟨output, root, frames⟩ := b
  cases frames <;> simp [put, text]

theorem length_put : (b.put s ts).length = b.length + Text.size s := by
  obtain ⟨output, root, frames⟩ := b
  cases frames <;> simp [put, length]

/-- Closing the frame that was opened last gives one node for all that was put into it, unless nothing
was written and the frame need not be kept. -/
theorem closeAtEnd_put (label : Label) (source : Span) (keepEmpty : Bool) :
    (b.openAtEnd.2.put s ts).closeAtEnd b.openAtEnd.1 label source keepEmpty =
      .ok (b.put s
        (if keepEmpty || !(Span.mk b.length (b.length + Text.size s)).isEmpty then
          [.mk label source ⟨b.length, b.length + Text.size s⟩ ts]
        else [])) := by
  have hlength : (b.openAtEnd.2.put s ts).length = b.length + Text.size s := length_put _ s ts
  have hordered : ¬ b.length + Text.size s < b.length := by omega
  obtain ⟨output, root, frames⟩ := b
  unfold closeAtEnd closeAt
  rw [hlength]
  simp only [openAtEnd, openAt, put, hordered, if_false]
  split_ifs with hdepth hkeep
  · cases frames <;> simp_all [put, add, length]
  · cases frames <;> simp_all [put, length]
  · exact absurd (by simp) hdepth

end Mapping.Builder

namespace Draft

mutual

theorem playPiece_eq (delta : Nat) : ∀ (p : Piece) (e : Emission),
    playPiece delta p e =
      .ok { e with builder := e.builder.put (codeOf p) (treesOf delta e.builder.length p) }
  | .text s, e => by
    simp [playPiece, codeOf, treesOf, Emission.text, Mapping.Builder.text_eq_put]
  | .mark label span keepEmpty inside, e => by
    rw [playPiece, Emission.framed]
    simp only [play_eq delta inside, bind, Except.bind]
    rw [Mapping.Builder.closeAtEnd_put]
    simp [Except.mapError, pure, Except.pure, codeOf, treesOf, size_eq,
      Mapping.Builder.openAtEnd, Mapping.Builder.openAt, Mapping.Builder.length]
  | .block names inside, e => by
    rw [playPiece, Emission.inBlock]
    simp [play_eq delta inside, bind, Except.bind, Scope.enter, Scope.leave, Except.mapError, pure,
      Except.pure, codeOf, treesOf]
  | .issue _ _, e => by simp [playPiece, codeOf, treesOf]
  | .directive _ _ _, e => by simp [playPiece, codeOf, treesOf]

/-- Playing a draft succeeds. It adds the code and the nodes of the draft, and leaves the frames and
the scope as they were. -/
theorem play_eq (delta : Nat) : ∀ (d : List Piece) (e : Emission),
    play delta d e =
      .ok { e with builder := e.builder.put (code d) (trees delta e.builder.length d) }
  | [], e => by simp [play, code, trees]
  | p :: ps, e => by
    simp only [play, playPiece_eq delta p e, Except.bind, play_eq delta ps]
    rw [Mapping.Builder.put_put, Mapping.Builder.length_put, ← lengthOf_eq]
    simp [code, trees]

end

end Draft

end TypedTemplate
