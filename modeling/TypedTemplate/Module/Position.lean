/-
Positions in a module and in the files it comes from. The end of a segment belongs to it, so a
position between two segments is in the earlier one.
-/
import TypedTemplate.Module.Basic

namespace TypedTemplate

/-- Why a span has no answer although its ends lie in the module. -/
inductive PositionFault where
  /-- It starts in one file and ends in another. -/
  | crossesFiles
  /-- Its start is after its end. -/
  | disordered
  deriving Repr, DecidableEq

/-- The span between two positions that must come in order. -/
def ordered (start stop : Nat) : Except PositionFault Span :=
  if start ≤ stop then .ok ⟨start, stop⟩ else .error .disordered

namespace Segment

/-- The position in the file for a position in the code. -/
def toSource (s : Segment) (offset : Nat) : Nat :=
  let here := offset - s.generated.start
  match s.mapping with
  | none => s.source.start + min here s.source.length
  | some tree =>
    s.source.start + ((tree.narrowestGenerated (.empty here)).getD tree).toSource here

/-- The position in the code for a position in the file. -/
def toGenerated (s : Segment) (offset : Nat) : Nat :=
  let here := offset - s.source.start
  match s.mapping with
  | none => s.generated.start + min here s.generated.length
  | some tree =>
    s.generated.start + ((tree.narrowestSource (.empty here)).getD tree).toGenerated here

/-- The node around a span of code, if the two spans it pairs have different lengths. -/
def unevenGenerated? (s : Segment) (range : Span) : Option Mapping.Tree := do
  let tree ← s.mapping
  let here : Span := ⟨range.start - s.generated.start, range.stop - s.generated.start⟩
  let node ← tree.narrowestGenerated here
  if node.source.length ≠ node.generated.length then some node else none

/-- The node around a span of the file, if the two spans it pairs have different lengths. -/
def unevenSource? (s : Segment) (range : Span) : Option Mapping.Tree := do
  let tree ← s.mapping
  let here : Span := ⟨range.start - s.source.start, range.stop - s.source.start⟩
  let node ← tree.narrowestSource here
  if node.source.length ≠ node.generated.length then some node else none

/-- The span of the file for a span of the code: all that the node around it stands for, or the two
ends one by one. -/
def toSourceRange (s : Segment) (range : Span) : Except PositionFault Span :=
  match s.unevenGenerated? range with
  | some node => .ok (node.source.shift s.source.start)
  | none => ordered (s.toSource range.start) (s.toSource range.stop)

/-- The span of the code for a span of the file. -/
def toGeneratedRange (s : Segment) (range : Span) : Except PositionFault Span :=
  match s.unevenSource? range with
  | some node => .ok (node.generated.shift s.generated.start)
  | none => ordered (s.toGenerated range.start) (s.toGenerated range.stop)

end Segment

/-- Where a template stands: in its file with and without its delimiters, and in the code. -/
structure TemplateBounds where
  embedding : Span
  content : Span
  generated : Span
  deriving Repr, DecidableEq

namespace Module

/-! ## Segments -/

/-- The segment at a position of the code. -/
def segmentAt? (m : Module) (offset : Nat) : Option Segment := do
  let s ← m.segments[partitionPoint (fun s => decide (s.generated.stop < offset)) m.segments]?
  if s.generated.start ≤ offset then some s else none

/-- The segments of a file, in the order of the file. -/
def segmentsOf (m : Module) (file : String) : List Segment :=
  (m.segments.filter fun s => Path.same s.file file).mergeSort fun a b =>
    a.source.start ≤ b.source.start

/-- The segment at a position of a file. -/
def segmentAtSource? (m : Module) (file : String) (offset : Nat) : Option Segment := do
  let segments := m.segmentsOf file
  let s ← segments[partitionPoint (fun s => decide (s.source.stop < offset)) segments]?
  if s.source.start ≤ offset then some s else none

/-! ## From code to files -/

/-- The file and the position for a position of the code. -/
def toSource? (m : Module) (offset : Nat) : Option (String × Nat) :=
  (m.segmentAt? offset).map fun s => (s.file, s.toSource offset)

/-- The file and the span for a span of the code. -/
def toSourceRange? (m : Module) (start stop : Nat) :
    Except PositionFault (Option (String × Span)) := do
  let some last := m.segmentAt? stop | return none
  if last.generated.start ≤ start then
    return some (last.file, ← last.toSourceRange (← ordered start stop))
  let some first := m.segmentAt? start | return none
  if !Path.same first.file last.file then .error .crossesFiles
  else return some (last.file, ← ordered (first.toSource start) (last.toSource stop))

/-! ## From files to code -/

/-- The position of the code for a position of a file. -/
def toGenerated? (m : Module) (file : String) (offset : Nat) : Option Nat :=
  (m.segmentAtSource? file offset).map (·.toGenerated offset)

/-- The span of the code for a span of a file. -/
def toGeneratedRange? (m : Module) (file : String) (start stop : Nat) :
    Except PositionFault (Option Span) := do
  let some last := m.segmentAtSource? file stop | return none
  if last.source.start ≤ start then
    return some (← last.toGeneratedRange (← ordered start stop))
  let some first := m.segmentAtSource? file start | return none
  return some (← ordered (first.toGenerated start) (last.toGenerated stop))

/-- The template at a position of a file. -/
def templateAt? (m : Module) (file : String) (offset : Nat) : Option TemplateBounds := do
  let s ← (m.segmentsOf file).find? fun s => s.mapping.isSome && s.source.touches offset
  let tree ← s.mapping
  let content := ((tree.children.find? (·.label == .template)).getD tree).source
  some ⟨s.source, content.shift s.source.start, s.generated⟩

end Module

end TypedTemplate
