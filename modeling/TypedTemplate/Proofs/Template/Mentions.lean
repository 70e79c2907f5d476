/-
The comments in braces of a template, in the order of its text. Those of an opening tag come before those of the
children, those of a block's first arm before those of the other. If the comments of an opening tag come before its
children, they all stand one after another, and sorting the parts of an opening tag keeps them.
-/
import TypedTemplate.Proofs.Template.Placement

namespace TypedTemplate.Template

open TypedTemplate.Span (InOrder)

/-! ## The comments of a tree -/

/-- A comment in braces, and whether it stands in the opening tag of a named block. -/
structure Mention where
  comment : Comment
  inBlockTag : Bool := false
  deriving Repr, DecidableEq

mutual

/-- The comments in braces of a statement. -/
def mentionsOf : Statement → List Mention
  | .text _ => []
  | .comment _ => []
  | .mustacheComment c => [{ comment := c }]
  | .mustache _ => []
  | .block ⟨_, ⟨body, _, _, _⟩, inverse, _, _⟩ => mentions body ++ inverseMentions inverse
  | .element ⟨tag, _, _, comments, _, children, _, _, _⟩ =>
    comments.map (⟨·, tag.text.toList.head? == some ':'⟩) ++ mentions children

def inverseMentions : Option Arm → List Mention
  | none => []
  | some ⟨body, _, _, _⟩ => mentions body

/-- The comments in braces of statements, one statement after another. -/
def mentions : List Statement → List Mention
  | [] => []
  | s :: ss => mentionsOf s ++ mentions ss

end

/-! ## Opening tags -/

/-- The comments of an opening tag stand in it one after another, and the children stand after them. -/
def Element.Opened (e : Element) : Prop :=
  ∃ opened, InOrder e.span.start (e.comments.map (·.span)) opened ∧
    InOrder opened (e.children.map (·.span)) e.span.stop

mutual

def Statement.Opened : Statement → Prop
  | .text _ => True
  | .comment _ => True
  | .mustacheComment _ => True
  | .mustache _ => True
  | .block ⟨_, ⟨body, _, _, _⟩, inverse, _, _⟩ => statementsOpened body ∧ inverseOpened inverse
  | .element ⟨tag, attributes, modifiers, comments, params, children, selfClosing, close, span⟩ =>
    Element.Opened ⟨tag, attributes, modifiers, comments, params, children, selfClosing, close, span⟩ ∧
      statementsOpened children

def inverseOpened : Option Arm → Prop
  | none => True
  | some ⟨body, _, _, _⟩ => statementsOpened body

def statementsOpened : List Statement → Prop
  | [] => True
  | s :: ss => s.Opened ∧ statementsOpened ss

end

theorem Statement.opened_block (b : Block) : (Statement.block b).Opened ↔
    statementsOpened b.program.body ∧ ∀ a ∈ b.inverse, statementsOpened a.body := by
  obtain ⟨_, ⟨_, _, _, _⟩, inverse, _, _⟩ := b
  rcases inverse with _ | ⟨_, _, _, _⟩
  · simp [Statement.Opened, inverseOpened]
  · simp [Statement.Opened, inverseOpened]

/-- A part of an opening tag that is a comment. -/
def TagPart.comment? : TagPart → Option Comment
  | .attr _ => none
  | .modifier _ => none
  | .comment c => some c

/-- Sorting what an opening tag holds leaves its comments in their order. -/
theorem Element.Opened.comments_parts {e : Element} (h : e.Opened) :
    e.parts.filterMap TagPart.comment? = e.comments := by
  obtain ⟨opened, hcomments, -⟩ := h
  have hmap : (e.comments.map TagPart.comment).filterMap TagPart.comment? = e.comments := by
    rw [List.filterMap_map]
    exact List.filterMap_some
  have hsorted : (e.comments.map TagPart.comment).Pairwise fun a b => decide (a.span.start ≤ b.span.start) = true := by
    have hpairs := List.pairwise_map.1 hcomments.pairwise
    refine List.pairwise_map.2 (hpairs.imp_of_mem fun {a b} ha _ hab => decide_eq_true ?_)
    exact (hcomments.inside _ (List.mem_map_of_mem ha)).ordered.trans hab
  have hsub : List.Sublist (e.comments.map TagPart.comment) e.parts := by
    refine List.sublist_mergeSort ?_ ?_ hsorted (List.sublist_append_right _ _)
    · intro a b c hab hbc
      exact decide_eq_true ((of_decide_eq_true hab).trans (of_decide_eq_true hbc))
    · intro a b
      simpa using Nat.le_total a.span.start b.span.start
  -- the comments are all there, and nothing else is
  have hperm : (e.parts.filterMap TagPart.comment?).Perm e.comments := by
    refine ((List.mergeSort_perm _ _).filterMap _).trans ?_
    rw [List.filterMap_append, List.filterMap_append, hmap, List.filterMap_map, List.filterMap_map]
    simp [Function.comp_def, TagPart.comment?]
  have hall := hsub.filterMap TagPart.comment?
  rw [hmap] at hall
  exact (hall.eq_of_length hperm.length_eq.symm).symm

/-! ## Comments in order -/

mutual

theorem mentionsOf_inOrder : ∀ {s : Statement}, s.Placed → s.Opened → s.span.start ≤ s.span.stop →
    InOrder s.span.start ((mentionsOf s).map (·.comment.span)) s.span.stop
  | .text _ => fun _ _ hle => by
    rw [mentionsOf]
    exact hle
  | .comment _ => fun _ _ hle => by
    rw [mentionsOf]
    exact hle
  | .mustacheComment _ => fun _ _ hle => by
    rw [mentionsOf]
    exact ⟨le_rfl, hle, le_rfl⟩
  | .mustache _ => fun _ _ hle => by
    rw [mentionsOf]
    exact hle
  | .block ⟨_, ⟨_, _, _, _⟩, _, _, _⟩ => fun hplaced hopened _ => by
    obtain ⟨hlaid, hbody, hinverse⟩ := hplaced
    obtain ⟨hopenedBody, hopenedInverse⟩ := hopened
    obtain ⟨mid, hprogram, hother⟩ := hlaid.parts.split
    obtain ⟨start, hcall, hprogram⟩ := hprogram.split
    obtain ⟨first, hparams, hprogram⟩ := hprogram.split
    rw [mentionsOf, List.map_append]
    refine InOrder.append (inverseMentions_inOrder hinverse hopenedInverse hother) ?_
    exact (mentions_inOrder hbody hopenedBody hprogram).mono (hcall.le.trans hparams.le) le_rfl
  | .element ⟨_, _, _, _, _, _, _, _, _⟩ => fun hplaced hopened _ => by
    obtain ⟨⟨opened, hcomments, hchildren⟩, hopened⟩ := hopened
    rw [mentionsOf, List.map_append, List.map_map]
    exact InOrder.append (mentions_inOrder hplaced.2 hopened hchildren) hcomments

theorem inverseMentions_inOrder : ∀ {inverse : Option Arm} {lo hi : Nat}, inversePlaced inverse →
    inverseOpened inverse → InOrder lo ((inverse.map Arm.parts).getD []) hi →
    InOrder lo ((inverseMentions inverse).map (·.comment.span)) hi
  | none, _, _ => fun _ _ hle => by
    rw [inverseMentions]
    exact hle
  | some ⟨_, _, _, _⟩, _, _ => fun hplaced hopened hparts => by
    obtain ⟨first, hparams, hbody⟩ := InOrder.split hparts
    rw [inverseMentions]
    exact (mentions_inOrder hplaced hopened hbody).mono hparams.le le_rfl

/-- The comments of placed statements stand in the order of the text. -/
theorem mentions_inOrder : ∀ {ss : List Statement} {lo hi : Nat}, statementsPlaced ss → statementsOpened ss →
    InOrder lo (ss.map (·.span)) hi → InOrder lo ((mentions ss).map (·.comment.span)) hi
  | [], _, _ => fun _ _ hle => by
    rw [mentions]
    exact hle
  | s :: ss, _, _ => fun hplaced hopened horder => by
    obtain ⟨hlo, hle, hrest⟩ := horder
    rw [mentions, List.map_append]
    refine InOrder.append (mentions_inOrder hplaced.2 hopened.2 hrest) ?_
    exact (mentionsOf_inOrder hplaced.1 hopened.1 hle).mono hlo le_rfl

end

end TypedTemplate.Template
