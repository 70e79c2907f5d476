/-
Bodies of a template: its own statements, those of the arms of its blocks and those of its elements, at any
depth. In a template that was read, the statements of a body stand in order between what comes before and
after the body in the block or element around it.
-/
import TypedTemplate.Proofs.Template.Neat

namespace TypedTemplate.Template

open TypedTemplate.Span (In InOrder)

/-- The bodies in some statements, these themselves included. -/
inductive IsBody : List Statement → List Statement → Prop
  | self (ss : List Statement) : IsBody ss ss
  | program {ss body : List Statement} {b : Block} :
      .block b ∈ ss → IsBody b.program.body body → IsBody ss body
  | inverse {ss body : List Statement} {b : Block} {arm : Arm} :
      .block b ∈ ss → arm ∈ b.inverse → IsBody arm.body body → IsBody ss body
  | children {ss body : List Statement} {e : Element} :
      .element e ∈ ss → IsBody e.children body → IsBody ss body

/-- A statement that a directive can apply to. -/
def Statement.IsSignificant : Statement → Prop
  | .text t => t.isBlank = false
  | .comment _ => False
  | .mustacheComment _ => False
  | .mustache _ => True
  | .block _ => True
  | .element _ => True

/-- A comment of a body and the first statement after it that a directive can apply to. -/
def Precedes (body : List Statement) (c : Comment) (s : Statement) : Prop :=
  ∃ front gap back, body = front ++ .mustacheComment c :: (gap ++ s :: back) ∧
    (∀ g ∈ gap, ¬ g.IsSignificant) ∧ s.IsSignificant

/-! ## Around a body -/

namespace Block

variable {b : Block} {s : Statement} {c : Span}

theorem Laid.before_program (h : b.Laid) (hs : s ∈ b.program.body)
    (hc : c ∈ b.call.parts ++ b.program.params.map (·.span)) : c.stop ≤ s.span.start := by
  have hp := (List.pairwise_append.1 h.parts.pairwise).1
  rw [Arm.parts, ← List.append_assoc] at hp
  exact (List.pairwise_append.1 hp).2.2 c hc s.span (List.mem_map_of_mem hs)

theorem Laid.after_program (h : b.Laid) (hs : s ∈ b.program.body)
    (hc : c ∈ (b.inverse.map Arm.parts).getD []) : s.span.stop ≤ c.start := by
  refine (List.pairwise_append.1 h.parts.pairwise).2.2 s.span ?_ c hc
  exact List.mem_append_right _ (List.mem_append_right _ (List.mem_map_of_mem hs))

theorem Laid.before_inverse (h : b.Laid) {arm : Arm} (harm : b.inverse = some arm) (hs : s ∈ arm.body)
    (hc : c ∈ b.call.parts ++ b.program.parts ++ arm.params.map (·.span)) :
    c.stop ≤ s.span.start := by
  have hp : (b.call.parts ++ b.program.parts ++ (arm.params.map (·.span) ++ arm.body.map (·.span))).Pairwise
      fun s t => s.stop ≤ t.start := by
    have hp := h.parts.pairwise
    rwa [Block.parts, harm] at hp
  rw [← List.append_assoc] at hp
  exact (List.pairwise_append.1 hp).2.2 c hc s.span (List.mem_map_of_mem hs)

theorem span_mem_program (hs : s ∈ b.program.body) : s.span ∈ b.parts :=
  List.mem_append_left _ (List.mem_append_right _ (List.mem_append_right _ (List.mem_map_of_mem hs)))

theorem span_mem_inverse {arm : Arm} (harm : arm ∈ b.inverse) (hs : s ∈ arm.body) :
    s.span ∈ b.parts := by
  rw [Block.parts, Option.mem_def.1 harm]
  exact List.mem_append_right _ (List.mem_append_right _ (List.mem_map_of_mem hs))

/-- What a block holds starts after the block. -/
theorem Inset.lt {closed : Bool} (h : b.Inset closed) (hc : c ∈ b.parts) : b.span.start < c.start :=
  (InOrder.inside h c hc).lower

end Block

namespace Element

variable {e : Element} {s : Statement} {c : Span}

theorem Inset.before_children (h : e.Inset) (hs : s ∈ e.children) (hc : c ∈ e.opening) :
    c.stop ≤ s.span.start := by
  obtain ⟨mid, -, hopening, horder⟩ := h.spans
  have hchild := horder.inside s.span (List.mem_append_left _ (List.mem_map_of_mem hs))
  exact (hopening c hc).upper.trans hchild.lower

theorem Inset.after_children (h : e.Inset) (hs : s ∈ e.children) (hc : c ∈ e.closeTagSpan.toList) :
    s.span.stop ≤ c.start := by
  obtain ⟨mid, -, -, horder⟩ := h.spans
  exact (List.pairwise_append.1 horder.pairwise).2.2 s.span (List.mem_map_of_mem hs) c hc

theorem Inset.pieces_in (h : e.Inset) : ∀ c ∈ e.pieces, c.In (e.span.start + 1) (e.span.stop - 1) := by
  obtain ⟨mid, hmid, hopening, horder⟩ := h.spans
  intro c hc
  rcases List.mem_append.1 hc with hc | hc
  · exact (hopening c hc).mono le_rfl horder.le
  · exact (horder.inside c hc).mono hmid le_rfl

end Element

/-- The parts of a neat statement that something closes lie strictly inside it. -/
theorem Statement.Neat.parts_in {s : Statement} (h : s.Neat true) :
    ∀ c ∈ s.parts, c.In (s.span.start + 1) (s.span.stop - 1) := by
  cases s with
  | text t => simp [Statement.parts]
  | comment c => simp [Statement.parts]
  | mustacheComment c => simp [Statement.parts]
  | mustache m => exact InOrder.inside h
  | block b => exact InOrder.inside ((Statement.neat_block true b).1 h).1
  | element e => exact ((Statement.neat_element true e).1 h).1.pieces_in

/-- A neat statement that a directive can apply to is not empty. -/
theorem Statement.Neat.span_lt {s : Statement} {closed : Bool} (h : s.Neat closed)
    (hs : s.IsSignificant) : s.span.start < s.span.stop := by
  cases s with
  | text t => exact h
  | comment c => exact hs.elim
  | mustacheComment c => exact hs.elim
  | mustache m =>
    have hle : m.span.start + 1 ≤ m.span.stop - 1 := InOrder.le h
    show m.span.start < m.span.stop
    omega
  | block b =>
    have hle := InOrder.le ((Statement.neat_block closed b).1 h).1
    show b.span.start < b.span.stop
    split at hle <;> omega
  | element e =>
    obtain ⟨mid, hmid, -, horder⟩ := ((Statement.neat_element closed e).1 h).1.spans
    have hle := horder.le
    show e.span.start < e.span.stop
    omega

/-! ## Bodies that were read -/

/-- Statements that were read: placed, neat and in order. If nothing closes them there is only one. -/
structure Tidy (closed : Bool) (ss : List Statement) : Prop where
  placed : statementsPlaced ss
  neat : statementsNeat closed ss
  inOrder : ∃ lo hi, InOrder lo (ss.map (·.span)) hi
  single : closed = false → ss.length = 1

namespace Tidy

variable {closed : Bool} {ss : List Statement} {b : Block} {e : Element}

theorem block (h : Tidy closed ss) (hb : .block b ∈ ss) : b.Laid ∧ b.Inset closed :=
  ⟨((Statement.placed_block b).1 (statementsPlaced_iff.1 h.placed _ hb)).1,
    ((Statement.neat_block closed b).1 (statementsNeat_iff.1 h.neat _ hb)).1⟩

theorem element (h : Tidy closed ss) (he : .element e ∈ ss) : e.Laid ∧ e.Inset :=
  ⟨((Statement.placed_element e).1 (statementsPlaced_iff.1 h.placed _ he)).1,
    ((Statement.neat_element closed e).1 (statementsNeat_iff.1 h.neat _ he)).1⟩

theorem program (h : Tidy closed ss) (hb : .block b ∈ ss) : Tidy true b.program.body := by
  obtain ⟨hlaid, hplaced, -⟩ := (Statement.placed_block b).1 (statementsPlaced_iff.1 h.placed _ hb)
  obtain ⟨-, hneat, -⟩ := (Statement.neat_block closed b).1 (statementsNeat_iff.1 h.neat _ hb)
  obtain ⟨mid, hfront, -⟩ := hlaid.parts.split
  obtain ⟨mid', -, hprogram⟩ := hfront.split
  obtain ⟨lo, -, hbody⟩ := hprogram.split
  exact ⟨hplaced, hneat, ⟨lo, mid, hbody⟩, nofun⟩

theorem inverse (h : Tidy closed ss) (hb : .block b ∈ ss) {arm : Arm} (harm : arm ∈ b.inverse) :
    Tidy (!arm.chained) arm.body := by
  obtain ⟨hlaid, -, hplaced⟩ := (Statement.placed_block b).1 (statementsPlaced_iff.1 h.placed _ hb)
  obtain ⟨-, -, hneat⟩ := (Statement.neat_block closed b).1 (statementsNeat_iff.1 h.neat _ hb)
  obtain ⟨hneat, hsingle⟩ := hneat arm harm
  obtain ⟨mid, -, hparts⟩ := hlaid.parts.split
  rw [Option.mem_def.1 harm, Option.map_some, Option.getD_some] at hparts
  obtain ⟨lo, -, hbody⟩ := hparts.split
  exact ⟨hplaced arm harm, hneat, ⟨lo, _, hbody⟩, fun hchained => hsingle (by simpa using hchained)⟩

theorem children (h : Tidy closed ss) (he : .element e ∈ ss) : Tidy true e.children := by
  obtain ⟨-, hplaced⟩ := (Statement.placed_element e).1 (statementsPlaced_iff.1 h.placed _ he)
  obtain ⟨hinset, hneat⟩ := (Statement.neat_element closed e).1 (statementsNeat_iff.1 h.neat _ he)
  obtain ⟨mid, -, -, horder⟩ := hinset.spans
  obtain ⟨hi, hbody, -⟩ := horder.split
  exact ⟨hplaced, hneat, ⟨mid, hi, hbody⟩, nofun⟩

/-- A body of several statements is closed. -/
theorem closed_of_precedes (h : Tidy closed ss) {c : Comment} {s : Statement} (hc : Precedes ss c s) :
    closed = true := by
  cases closed with
  | true => rfl
  | false =>
    obtain ⟨front, gap, back, rfl, -⟩ := hc
    have hlength := h.single rfl
    simp only [List.length_append, List.length_cons] at hlength
    omega

end Tidy

/-! ## From statements to the bodies in them -/

/-- A body that was read is tidy, too. -/
theorem IsBody.tidy {ss body : List Statement} (h : IsBody ss body) {closed : Bool}
    (ht : Tidy closed ss) : ∃ closed', Tidy closed' body := by
  induction h generalizing closed with
  | self ss => exact ⟨closed, ht⟩
  | program hb _ ih => exact ih (ht.program hb)
  | inverse hb harm _ ih => exact ih (ht.inverse hb harm)
  | children he _ ih => exact ih (ht.children he)

/-- What stands in a body stands in one of the statements around the body. -/
theorem IsBody.around {ss body : List Statement} (h : IsBody ss body) {closed : Bool}
    (ht : Tidy closed ss) {s : Statement} (hs : s ∈ body) :
    ∃ r ∈ ss, r.span.start ≤ s.span.start ∧ s.span.stop ≤ r.span.stop := by
  induction h generalizing closed with
  | self ss => exact ⟨s, hs, le_rfl, le_rfl⟩
  | @program ss body b hb _ ih =>
    obtain ⟨r, hr, hstart, hstop⟩ := ih (ht.program hb) hs
    have hin := (ht.block hb).1.parts.inside r.span (Block.span_mem_program hr)
    exact ⟨.block b, hb, hin.lower.trans hstart, hstop.trans hin.upper⟩
  | @inverse ss body b arm hb harm _ ih =>
    obtain ⟨r, hr, hstart, hstop⟩ := ih (ht.inverse hb harm) hs
    have hin := (ht.block hb).1.parts.inside r.span (Block.span_mem_inverse harm hr)
    exact ⟨.block b, hb, hin.lower.trans hstart, hstop.trans hin.upper⟩
  | @children ss body e he _ ih =>
    obtain ⟨r, hr, hstart, hstop⟩ := ih (ht.children he) hs
    have hmem : r.span ∈ e.pieces :=
      List.mem_append_right _ (List.mem_append_left _ (List.mem_map_of_mem hr))
    have hin := (ht.element he).1.pieces.inside r.span hmem
    exact ⟨.element e, he, hin.lower.trans hstart, hstop.trans hin.upper⟩

end TypedTemplate.Template
