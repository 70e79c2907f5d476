/-
What delimiters do for the parts of a template. The parts of a mustache, a block or an element lie strictly
inside it, between the characters that open and close it; what an opening tag holds comes before the
children; texts and comments are not empty; and two texts of a quoted value have a mustache between them. A
block that an `else` opens has no closing of its own, so its parts may reach its end.
-/
import TypedTemplate.Proofs.Template.Placement

namespace TypedTemplate.Template

open TypedTemplate.Span (In InOrder)

/-- No two texts follow each other. -/
def Parted : List ConcatPart → Prop
  | .text _ :: .text _ :: _ => False
  | _ :: parts => Parted parts
  | [] => True

def AttrValue.Neat : AttrValue → Prop
  | .concat parts _ => Parted parts
  | _ => True

/-- The parts of a call lie strictly inside it. -/
def Call.Inset (c : Call) : Prop := InOrder (c.span.start + 1) c.parts (c.span.stop - 1)

/-- The parts of a block lie strictly inside it, or up to its end if nothing closes it. -/
def Block.Inset (closed : Bool) (b : Block) : Prop :=
  InOrder (b.span.start + 1) b.parts (if closed then b.span.stop - 1 else b.span.stop)

/-- The spans of what stands in the opening tag of an element. -/
def Element.opening (e : Element) : List Span :=
  e.tag.span :: (e.attributes.map (·.span) ++ e.modifiers.map (·.span) ++ e.params.map (·.span))

/-- The parts of an element lie strictly inside it, those of the opening tag before all others. -/
structure Element.Inset (e : Element) : Prop where
  values : ∀ a ∈ e.attributes, a.value.Neat
  spans : ∃ mid, e.span.start + 1 ≤ mid ∧ (∀ s ∈ e.opening, s.In (e.span.start + 1) mid) ∧
    InOrder mid (e.children.map (·.span) ++ e.closeTagSpan.toList) (e.span.stop - 1)

mutual

/-- A statement whose parts lie strictly inside it, throughout; `closed` says that something closes it. -/
def Statement.Neat (closed : Bool) : Statement → Prop
  | .text t => t.span.start < t.span.stop
  | .comment _ => True
  | .mustacheComment c => c.span.start < c.span.stop
  | .mustache m => m.call.Inset
  | .block ⟨call, ⟨body, params, chained, span⟩, inverse, closeSpan, whole⟩ =>
    Block.Inset closed ⟨call, ⟨body, params, chained, span⟩, inverse, closeSpan, whole⟩ ∧
      statementsNeat true body ∧ inverseNeat inverse
  | .element ⟨tag, attributes, modifiers, comments, params, children, selfClosing, close, span⟩ =>
    Element.Inset ⟨tag, attributes, modifiers, comments, params, children, selfClosing, close, span⟩ ∧
      statementsNeat true children

/-- An arm that is a block of its own ends where the block around it does. -/
def inverseNeat : Option Arm → Prop
  | none => True
  | some ⟨body, _, chained, _⟩ => statementsNeat (!chained) body ∧ (chained = true → body.length = 1)

def statementsNeat (closed : Bool) : List Statement → Prop
  | [] => True
  | s :: ss => s.Neat closed ∧ statementsNeat closed ss

end

theorem Statement.neat_block (closed : Bool) (b : Block) :
    (Statement.block b).Neat closed ↔
      b.Inset closed ∧ statementsNeat true b.program.body ∧
        ∀ a ∈ b.inverse, statementsNeat (!a.chained) a.body ∧ (a.chained = true → a.body.length = 1) := by
  obtain ⟨_, ⟨_, _, _, _⟩, inverse, _, _⟩ := b
  rcases inverse with _ | ⟨_, _, _, _⟩
  · simp [Statement.Neat, inverseNeat]
  · simp [Statement.Neat, inverseNeat]

theorem Statement.neat_element (closed : Bool) (e : Element) :
    (Statement.element e).Neat closed ↔ e.Inset ∧ statementsNeat true e.children := by
  cases e
  simp [Statement.Neat]

theorem statementsNeat_iff {closed : Bool} {ss : List Statement} :
    statementsNeat closed ss ↔ ∀ s ∈ ss, s.Neat closed := by
  induction ss with
  | nil => simp [statementsNeat]
  | cons s ss ih => simp [statementsNeat, ih]

end TypedTemplate.Template
