/-
How the parts of a template lie in it. A tree is placed if the parts of each node lie in the span of
the node without overlap: what is read in order is stated in order, the parts of an opening tag, whose
kinds mix, are scattered. Names that lose a character on their way into code, and tags, which are cut
at their points, are as long as their spans.
-/
import TypedTemplate.Proofs.Span
import TypedTemplate.Template.Basic

namespace TypedTemplate.Template

open TypedTemplate.Span (InOrder Scattered)

/-- A name that is as long as its span. -/
def Name.Fits (n : Name) : Prop := n.span.stop = n.span.start + Text.size n.text

/-! ## Expressions -/

/-- The spans of the parts of a path. -/
def Path.parts (p : Path) : List Span := p.head.span :: p.tail.map (·.span)

def Path.Placed (p : Path) : Prop := InOrder p.span.start p.parts p.span.stop

mutual

def Expr.Placed : Expr → Prop
  | .path p => p.Placed
  | .literal _ _ => True
  | .call ⟨callee, params, ⟨pairs, hash⟩, span⟩ =>
    InOrder span.start (callee.span :: params.map (·.span) ++ [hash]) span.stop ∧
      InOrder hash.start (pairs.map (·.span)) hash.stop ∧
      callee.Placed ∧ allPlaced params ∧ pairsPlaced pairs

def allPlaced : List Expr → Prop
  | [] => True
  | e :: es => e.Placed ∧ allPlaced es

def pairsPlaced : List Pair → Prop
  | [] => True
  | ⟨key, value, span⟩ :: ps =>
    InOrder span.start [key.span, value.span] span.stop ∧ value.Placed ∧ pairsPlaced ps

end

/-- The spans of the parts of a call. -/
def Call.parts (c : Call) : List Span :=
  c.callee.span :: c.params.map (·.span) ++ [c.hash.span]

/-- The parts of a call are placed, wherever the call itself stands. -/
structure Call.Inner (c : Call) : Prop where
  pairs : InOrder c.hash.span.start (c.hash.pairs.map (·.span)) c.hash.span.stop
  callee : c.callee.Placed
  params : allPlaced c.params
  values : pairsPlaced c.hash.pairs

structure Call.Placed (c : Call) : Prop where
  parts : InOrder c.span.start c.parts c.span.stop
  inner : c.Inner

theorem Expr.placed_call (c : Call) : (Expr.call c).Placed ↔ c.Placed := by
  obtain ⟨callee, params, ⟨pairs, hash⟩, span⟩ := c
  constructor
  · rintro ⟨h₁, h₂, h₃, h₄, h₅⟩
    exact ⟨h₁, h₂, h₃, h₄, h₅⟩
  · rintro ⟨h₁, h₂, h₃, h₄, h₅⟩
    exact ⟨h₁, h₂, h₃, h₄, h₅⟩

theorem pairsPlaced_iff {ps : List Pair} :
    pairsPlaced ps ↔
      ∀ p ∈ ps, InOrder p.span.start [p.key.span, p.value.span] p.span.stop ∧ p.value.Placed := by
  induction ps with
  | nil => simp [pairsPlaced]
  | cons p ps ih =>
    obtain ⟨key, value, span⟩ := p
    simp [pairsPlaced, ih, and_assoc]

/-! ## Attributes -/

def ConcatPart.span : ConcatPart → Span
  | .text t => t.span
  | .mustache m => m.span

def ConcatPart.Placed : ConcatPart → Prop
  | .text _ => True
  | .mustache m => m.call.Placed

def AttrValue.span : AttrValue → Span
  | .text t => t.span
  | .mustache m => m.span
  | .concat _ span => span

def AttrValue.Placed : AttrValue → Prop
  | .text _ => True
  | .mustache m => m.call.Placed
  | .concat parts span =>
    InOrder span.start (parts.map (·.span)) span.stop ∧ ∀ p ∈ parts, p.Placed

structure Attribute.Placed (a : Attribute) : Prop where
  parts : InOrder a.span.start [a.name.span, a.value.span] a.span.stop
  fits : a.name.Fits
  value : a.value.Placed

/-! ## Statements -/

def Statement.span : Statement → Span
  | .text t => t.span
  | .comment c => c.span
  | .mustacheComment c => c.span
  | .mustache m => m.span
  | .block b => b.span
  | .element e => e.span

/-- The spans of the parts of an arm. -/
def Arm.parts (a : Arm) : List Span := a.params.map (·.span) ++ a.body.map (·.span)

/-- The spans of the parts of a block, in order. -/
def Block.parts (b : Block) : List Span :=
  b.call.parts ++ b.program.parts ++ (b.inverse.map Arm.parts).getD []

/-- The spans of the parts of an element, by kinds. -/
def Element.pieces (e : Element) : List Span :=
  e.tag.span :: (e.attributes.map (·.span) ++ e.modifiers.map (·.span) ++ e.params.map (·.span)) ++
    (e.children.map (·.span) ++ e.closeTagSpan.toList)

/-- What is asked of an element apart from its children. -/
structure Element.Laid (e : Element) : Prop where
  pieces : Scattered e.span.start e.span.stop e.pieces
  tag : e.tag.Fits
  close : ∀ s ∈ e.closeTagSpan, s.stop = s.start + Text.size e.tag.text
  attributes : ∀ a ∈ e.attributes, a.Placed
  modifiers : ∀ m ∈ e.modifiers, m.Placed

/-- What is asked of a block apart from its bodies. -/
structure Block.Laid (b : Block) : Prop where
  whole : b.call.span = b.span
  parts : InOrder b.span.start b.parts b.span.stop
  inner : b.call.Inner

/-- The spans of the parts of a statement. -/
def Statement.parts : Statement → List Span
  | .text _ => []
  | .comment _ => []
  | .mustacheComment _ => []
  | .mustache m => m.call.parts
  | .block b => b.parts
  | .element e => e.pieces

mutual

def Statement.Placed : Statement → Prop
  | .text _ => True
  | .comment _ => True
  | .mustacheComment _ => True
  | .mustache m => m.call.Placed
  | .block ⟨call, ⟨body, params, chained, span⟩, inverse, closeSpan, whole⟩ =>
    Block.Laid ⟨call, ⟨body, params, chained, span⟩, inverse, closeSpan, whole⟩ ∧
      statementsPlaced body ∧ inversePlaced inverse
  | .element ⟨tag, attributes, modifiers, comments, params, children, selfClosing, close, span⟩ =>
    Element.Laid ⟨tag, attributes, modifiers, comments, params, children, selfClosing, close, span⟩ ∧
      statementsPlaced children

def inversePlaced : Option Arm → Prop
  | none => True
  | some ⟨body, _, _, _⟩ => statementsPlaced body

def statementsPlaced : List Statement → Prop
  | [] => True
  | s :: ss => s.Placed ∧ statementsPlaced ss

end

theorem Statement.placed_block (b : Block) :
    (Statement.block b).Placed ↔
      b.Laid ∧ statementsPlaced b.program.body ∧ ∀ a ∈ b.inverse, statementsPlaced a.body := by
  obtain ⟨_, ⟨_, _, _, _⟩, inverse, _, _⟩ := b
  rcases inverse with _ | ⟨_, _, _, _⟩
  · simp [Statement.Placed, inversePlaced]
  · simp [Statement.Placed, inversePlaced]

theorem Statement.placed_element (e : Element) :
    (Statement.element e).Placed ↔ e.Laid ∧ statementsPlaced e.children := by
  cases e
  simp [Statement.Placed]

theorem statementsPlaced_iff {ss : List Statement} : statementsPlaced ss ↔ ∀ s ∈ ss, s.Placed := by
  induction ss with
  | nil => simp [statementsPlaced]
  | cons s ss ih => simp [statementsPlaced, ih]

/-- The parts of a placed statement lie in it. -/
theorem Statement.Placed.parts_in {s : Statement} (h : s.Placed) :
    ∀ c ∈ s.parts, c.In s.span.start s.span.stop := by
  cases s with
  | text t => simp [Statement.parts]
  | comment c => simp [Statement.parts]
  | mustacheComment c => simp [Statement.parts]
  | mustache m => exact Call.Placed.parts h |>.inside
  | block b => exact ((Statement.placed_block b).1 h).1.parts.inside
  | element e => exact ((Statement.placed_element e).1 h).1.pieces.inside

end TypedTemplate.Template
