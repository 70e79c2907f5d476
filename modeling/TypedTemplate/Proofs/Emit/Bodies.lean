/-
Where the bodies of a template are written. The search for a node goes down from the code of a body to that
of the block or element in it that the node stands in, and on to the code of a body of that one. All that a
block or element writes before a body stands for what comes before that body, and all that it writes after
it for what comes after, so nothing else holds the node.
-/
import TypedTemplate.Proofs.Draft.Descent
import TypedTemplate.Proofs.Emit.Statement
import TypedTemplate.Proofs.Template.Body

namespace TypedTemplate

open Draft Template Emit
open Mapping (Tree)

/-! ## Statements one after another -/

namespace Emit

/-- Statements one after another, by what is written for each. -/
def sequence (item : Option Span → Statement → Draft) : List Statement → Draft
  | [] => []
  | s :: rest => item (nextSignificant rest) s ++ sequence item rest

theorem statements_eq (b : Bindings) (depth : Nat) (ss : List Statement) :
    statements b depth ss = sequence (statement b depth) ss := by
  induction ss with
  | nil => rw [statements, sequence]
  | cons s rest ih => rw [statements, sequence, ih]

theorem namedBlocks_eq (b : Bindings) (depth : Nat) (ss : List Statement) :
    namedBlocks b depth ss = sequence (namedBlock b depth) ss := by
  induction ss with
  | nil => rw [namedBlocks, sequence]
  | cons s rest ih => rw [namedBlocks_cons, sequence, ih]

theorem mem_sequence {item : Option Span → Statement → Draft} {m : Mark} : ∀ {ss : List Statement},
    m ∈ marks (sequence item ss) → ∃ s ∈ ss, ∃ next, m ∈ marks (item next s)
  | s :: rest, h => by
    rw [sequence, marks_append] at h
    rcases List.mem_append.1 h with h | h
    · exact ⟨s, List.mem_cons_self, _, h⟩
    · obtain ⟨t, ht, hm⟩ := mem_sequence h
      exact ⟨t, List.mem_cons_of_mem s ht, hm⟩

theorem lengthOf_line_pos (depth : Nat) : 0 < lengthOf (line depth) := by
  have : 0 < Text.size "\n" := by decide
  simp only [line, lengthOf, Text.size_append]
  omega

/-- A statement other than text starts on a line of its own. -/
theorem statement_eq_line (b : Bindings) (depth : Nat) (next : Option Span) {s : Statement}
    (hs : s.IsSignificant) :
    (∃ t, s = .text t) ∨ ∃ d, statement b depth next s = line depth :: d := by
  cases s with
  | text t => exact .inl ⟨t, rfl⟩
  | comment c => exact hs.elim
  | mustacheComment c => exact hs.elim
  | mustache m => exact .inr ⟨_, by rw [statement]⟩
  | block blk =>
    obtain ⟨_, ⟨_, _, _, _⟩, _, _, _⟩ := blk
    refine .inr ?_
    rw [statement]
    split
    · exact ⟨_, rfl⟩
    · split
      · exact ⟨_, rfl⟩
      · exact ⟨_, rfl⟩
  | element e =>
    cases e
    refine .inr ?_
    rw [statement]
    dsimp only
    split
    · exact ⟨_, rfl⟩
    · split
      · exact ⟨_, rfl⟩
      · exact ⟨_, rfl⟩

theorem mem_directives_sequence {item : Option Span → Statement → Draft} {l : LocalDirective}
    {s : Statement} {back : List Statement} (h : l ∈ directives (item (nextSignificant back) s))
    (front : List Statement) : l ∈ directives (sequence item (front ++ s :: back)) := by
  induction front with
  | nil =>
    rw [List.nil_append, sequence, directives_append]
    exact List.mem_append_left _ h
  | cons f front ih =>
    rw [List.cons_append, sequence, directives_append]
    exact List.mem_append_right _ ih

theorem directives_comment {c : Comment} {kind : DirectiveKind}
    (hkind : Recognized.ofComment c.value = .directive kind) (hchecks : kind ≠ .noCheck) (span : Span) :
    directives (comment c (some span)) = [⟨kind, c.span, some span⟩] := by
  unfold comment
  rw [hkind]
  cases kind with
  | noCheck => exact absurd rfl hchecks
  | ignore => rfl
  | expectError => rfl

/-- A directive in front of a statement applies to it. -/
theorem nextSignificant_eq {gap back : List Statement} {s : Statement}
    (hgap : ∀ g ∈ gap, ¬ g.IsSignificant) (hs : s.IsSignificant) :
    nextSignificant (gap ++ s :: back) = some s.span := by
  unfold nextSignificant
  rw [List.findSome?_append, List.findSome?_eq_none_iff.2, Option.none_or, List.findSome?_cons]
  · cases s with
    | text t => simp [show t.isBlank = false from hs, Statement.span]
    | comment c => exact hs.elim
    | mustacheComment c => exact hs.elim
    | mustache m => rfl
    | block blk => rfl
    | element e => rfl
  · intro g hg
    have hnot := hgap g hg
    cases g with
    | text t => simpa [Statement.IsSignificant] using hnot
    | comment c => rfl
    | mustacheComment c => rfl
    | mustache m => exact absurd trivial hnot
    | block blk => exact absurd trivial hnot
    | element e => exact absurd trivial hnot

end Emit

namespace Draft

theorem Encloses.span_eq {span : Span} {cells : List Span} {ms : List Mark} {m : Mark}
    (h : Encloses span cells ms) (hm : m ∈ ms) : m.span = span := by
  rcases h with rfl | ⟨label, keepEmpty, inside, rfl, -⟩
  · cases hm
  · rw [List.mem_singleton.1 hm]

namespace Sought

variable {q : Sought} {p : Tree} {start : Nat}

/-- The search goes to what is written for the statement that the node stands in. -/
theorem At.item {item : Option Span → Statement → Draft}
    (hitem : ∀ next {s : Statement}, s.Placed → Encloses s.span s.parts (marks (item next s)))
    {s : Statement} {back : List Statement} {closed : Bool} (hstart : s.span.start ≤ q.span.start)
    (hstop : q.span.stop ≤ s.span.stop) : ∀ {front : List Statement} {start : Nat},
      Tidy closed (front ++ s :: back) → q.At p start (sequence item (front ++ s :: back)) →
        ∃ start', start ≤ start' ∧ q.At p start' (item (nextSignificant back) s) := by
  intro front start ht h
  obtain ⟨lo, hi, horder⟩ := ht.inOrder
  obtain ⟨-, hback, hfront⟩ := List.pairwise_append.1 (List.pairwise_map.1 horder.pairwise)
  have hplaced := statementsPlaced_iff.1 ht.placed
  have hmarks {r : Statement} {next : Option Span} {m : Mark} (hr : r ∈ front ++ s :: back)
      (hm : m ∈ marks (item next r)) : m.span = r.span := (hitem next (hplaced r hr)).span_eq hm
  clear ht horder hplaced
  induction front generalizing start with
  | nil =>
    refine ⟨start, le_rfl, At.left h fun m hm => ?_⟩
    obtain ⟨r, hr, next, hm⟩ := mem_sequence hm
    rw [hmarks (List.mem_cons_of_mem s hr) hm]
    exact hstop.trans ((List.pairwise_cons.1 hback).1 r hr)
  | cons f front ih =>
    have hpassed : q.Passed (marks (item (nextSignificant (front ++ s :: back)) f)) := by
      intro m hm
      rw [hmarks List.mem_cons_self hm]
      exact (hfront f List.mem_cons_self s List.mem_cons_self).trans hstart
    obtain ⟨start', hle, hitem'⟩ := ih (At.right h hpassed)
      (fun a ha => hfront a (List.mem_cons_of_mem f ha)) fun hr => hmarks (List.mem_cons_of_mem f hr)
    exact ⟨start', (Nat.le_add_right _ _).trans hle, hitem'⟩

/-! ## Blocks and elements -/

section
variable {b : Bindings} {depth : Nat} {c : Call} {body : Draft} {params : List Name} {span : Span}

theorem At.inContents {name : Draft} (h : q.At p start (blockContents depth name params body))
    (hparams : q.Passed (marks (paramPattern true params))) (hname : q.Passed (marks name)) :
    ∃ start', q.At p start' body := by
  have h := At.right (At.left h (by simp [Ahead])) fun m hm => ?_
  · exact ⟨_, h.within⟩
  · have hm : m ∈ marks (paramPattern true params) ∨ m ∈ marks name := by simpa using hm
    rcases hm with hm | hm
    · exact hparams m hm
    · exact hname m hm

theorem At.inPlaceholderArm (h : q.At p start (placeholderArm depth params body))
    (hparams : q.Passed (marks (paramPattern false params))) : ∃ start', q.At p start' body := by
  have h := At.right (At.left h (by simp [Ahead])) fun m hm => ?_
  · exact ⟨_, h.within⟩
  · split at hm
    · cases hm
    · exact hparams m (by simpa using hm)

theorem At.inComponentBlock {arms : Draft} (h : q.At p start (componentBlock b depth c arms))
    (hne : c.span ≠ q.span) (hcall : q.Passed ((call b c).parts none)) :
    ∃ p' start', q.At p' start' arms := by
  obtain ⟨p', h, -⟩ := At.node h hne
  have h := At.right (At.left h (by simp [Ahead])) fun m hm => ?_
  · exact ⟨p', _, h⟩
  · have hm : m ∈ marks (call b c).resolve := by simpa using hm
    exact hcall m (by simpa [CallDraft.parts, CallDraft.hash] using CallDraft.mem_resolve hm)

theorem At.inPlaceholderBlock {arms : Draft} (h : q.At p start (placeholderBlock b depth c arms))
    (hne : c.span ≠ q.span) (hcall : q.Passed ((call b c).parts none)) :
    ∃ p' start', q.At p' start' arms := by
  obtain ⟨p', h, -⟩ := At.node h hne
  have h := At.right (At.left h (by simp [Ahead])) fun m hm => ?_
  · exact ⟨p', _, h⟩
  · have hm : m ∈ marks (call b c).args := by simpa using hm
    refine hcall m (List.mem_append_right _ ?_)
    simpa [CallDraft.hash] using CallDraft.mem_args hm

/-- What a condition writes before its bodies. -/
theorem passed_condition {use : FormUse} (hcall : q.Passed ((call b c).parts none)) (code : String) :
    q.Passed (marks (mention depth use (expr b c.callee) ++ [Piece.text code] ++ condition b use c ++
      [Piece.text ")) \x7b"])) := by
  intro m hm
  simp only [marks_append, marks_cons, marksOf_text, marks_nil, List.append_nil, List.mem_append] at hm
  rcases hm with hm | hm
  · exact hcall m (List.mem_append_left _ (mem_mention hm))
  · exact hcall m (List.mem_append_right _ (List.mem_append_left _ (mem_condition hm)))

theorem At.inIfBody {use : FormUse} {inverse : Option Draft}
    (h : q.At p start (ifBlock b depth use c body inverse)) (hne : c.span ≠ q.span)
    (hcall : q.Passed ((call b c).parts none)) (hinverse : ∀ d ∈ inverse, q.Ahead (marks d)) :
    ∃ p' start', q.At p' start' body := by
  obtain ⟨p', h, -⟩ := At.node h hne
  have h := At.left h fun m hm => ?_
  · exact ⟨p', _, At.right (At.left h (by simp [Ahead])) (passed_condition hcall _)⟩
  · cases inverse with
    | none => cases hm
    | some other => exact hinverse other rfl m (by simpa using hm)

theorem At.inElseBody {use : FormUse} {other : Draft}
    (h : q.At p start (ifBlock b depth use c body (some other))) (hne : c.span ≠ q.span)
    (hcall : q.Passed ((call b c).parts none)) (hbody : q.Passed (marks body)) :
    ∃ p' start', q.At p' start' other := by
  obtain ⟨p', h, -⟩ := At.node h hne
  have h := At.right h fun m hm => ?_
  · exact ⟨p', _, At.skip (At.left h (by simp [Ahead])) rfl⟩
  · rw [marks_append, marks_append] at hm
    rcases List.mem_append.1 hm with hm | hm
    · rcases List.mem_append.1 hm with hm | hm
      · exact passed_condition hcall _ m hm
      · exact hbody m hm
    · simp at hm

theorem At.inPlainElement {tag : Name} {parts : List TagPart} {attributes : List Attribute}
    {modifiers : List Call}
    (h : q.At p start (plainElement b depth tag span (.of parts attributes modifiers false) body))
    (hne : span ≠ q.span) {params : List Mark}
    (hopening : q.Passed (marks (quotedName tag.text tag.span) ++
      (attributes.flatMap (fun a => marks (attributeCode b false a)) ++
        modifiers.flatMap (fun c => marks (modifier b c)) ++ params))) :
    ∃ p' start', q.At p' start' body := by
  obtain ⟨p', h, -⟩ := At.node h hne
  have h := At.right (At.left h (by simp [Ahead])) fun m hm => ?_
  · exact ⟨p', _, h⟩
  · simp only [marks_append, marks_cons, marksOf_text, marksOf_line, marks_nil, List.nil_append,
      List.append_nil, List.mem_append] at hm
    rcases hm with (hm | hm) | hm
    · exact hopening m (List.mem_append_left _ hm)
    · refine hopening m (List.mem_append_right _ (List.mem_append_left _ ?_))
      exact List.mem_append.2 (mem_openTag hm)
    · exact (mem_bodyOf_if hm rfl).elim

theorem At.inComponentElement {tag : Name} {parts : List TagPart} {attributes : List Attribute}
    {modifiers : List Call} {close : Option Span} {blocks : Draft}
    (h : q.At p start (componentElement b depth tag span attributes
      (.of parts attributes modifiers true) close (some blocks)))
    (hne : span ≠ q.span) {params : List Mark}
    (hopening : q.Passed (marks (tagPath b tag.text tag.span) ++
      (attributes.flatMap (fun a => marks (attributeCode b true a)) ++
        modifiers.flatMap (fun c => marks (modifier b c)) ++ params)))
    (hclose : q.Ahead (closeMarks b tag.text close)) :
    ∃ p' start', p'.generated.start < start' ∧ q.At p' start' blocks := by
  obtain ⟨p', h, hstart⟩ := At.node h hne
  have h := At.left (At.left h (by simp [Ahead])) fun m hm => ?_
  · have h := At.right h fun m hm => ?_
    · refine ⟨p', _, ?_, h⟩
      rw [hstart]
      simp only [size_append, size, lengthOf]
      have : 0 < Text.size "\x7b" := by decide
      omega
    · simp only [marks_append, marks_cons, marksOf_text, marksOf_line, marks_nil, List.nil_append,
        List.append_nil, List.mem_append] at hm
      rcases hm with (hm | hm) | hm
      · exact hopening m (List.mem_append_left _ hm)
      · refine hopening m (List.mem_append_right _ (List.mem_append_left _ (List.mem_append_left _ ?_)))
        exact mem_arguments hm
      · refine hopening m (List.mem_append_right _ (List.mem_append_left _ ?_))
        exact List.mem_append.2 (mem_openTag hm)
  · cases close with
    | none => cases hm
    | some close => exact hclose m (by simpa [closeMarks] using hm)

end

/-! ## From body to body -/

/-- The sought node is in what is written for a body: as statements, or as the named blocks of a component,
after code of the component. -/
def InBody (q : Sought) (ss : List Statement) : Prop :=
  ∃ p start b depth, q.At p start (statements b depth ss) ∨
    p.generated.start < start ∧ q.At p start (namedBlocks b depth ss)

section
variable {ss : List Statement} {closed : Bool}

theorem InBody.item (h : q.InBody ss) (ht : Tidy closed ss) {s : Statement} (hs : s ∈ ss)
    (hstart : s.span.start ≤ q.span.start) (hstop : q.span.stop ≤ s.span.stop) :
    ∃ p start b depth next, q.At p start (statement b depth next s) ∨
      p.generated.start < start ∧ q.At p start (namedBlock b depth next s) := by
  obtain ⟨front, back, rfl⟩ := List.append_of_mem hs
  obtain ⟨p, start, b, depth, h | ⟨hlt, h⟩⟩ := h
  · rw [statements_eq] at h
    obtain ⟨start', -, h⟩ := At.item (encloses_statement b depth) hstart hstop ht h
    exact ⟨p, start', b, depth, _, .inl h⟩
  · rw [namedBlocks_eq] at h
    obtain ⟨start', hle, h⟩ := At.item (encloses_namedBlockItem b depth) hstart hstop ht h
    exact ⟨p, start', b, depth, _, .inr ⟨hlt.trans_le hle, h⟩⟩

/-- Blocks are written among statements only. -/
theorem InBody.block (h : q.InBody ss) (ht : Tidy closed ss) {blk : Block} (hb : .block blk ∈ ss)
    (hstart : blk.span.start ≤ q.span.start) (hstop : q.span.stop ≤ blk.span.stop) :
    ∃ p start b depth next, q.At p start (statement b depth next (.block blk)) := by
  obtain ⟨p, start, b, depth, next, h | ⟨-, h⟩⟩ := h.item ht hb hstart hstop
  · exact ⟨p, start, b, depth, next, h⟩
  · obtain ⟨c, program, inverse, close, span⟩ := blk
    exact absurd rfl h.marks_ne_nil

/-- The call of a block is passed on the way to a body of the block. -/
theorem passed_call {blk : Block} (hlaid : blk.Laid) (b : Bindings)
    (hbefore : ∀ c ∈ blk.call.parts, c.stop ≤ q.span.start) :
    q.Passed ((call b blk.call).parts none) := by
  obtain ⟨mid, hleft, -⟩ := hlaid.parts.split
  obtain ⟨mid', hparts, -⟩ := hleft.split
  exact passed_of_placed (placed_callParts b none hlaid.inner hparts) hbefore

/-- A block is not what stands in a body of it. -/
theorem call_ne {blk : Block} (hlaid : blk.Laid) (hinset : blk.Inset closed) {c : Span}
    (hc : c ∈ blk.parts) (hstart : c.start ≤ q.span.start) : blk.call.span ≠ q.span := by
  intro heq
  have hlt := hinset.lt hc
  rw [← hlaid.whole, heq] at hlt
  omega

theorem InBody.program (h : q.InBody ss) (ht : Tidy closed ss) {blk : Block} (hb : .block blk ∈ ss)
    {r : Statement} (hr : r ∈ blk.program.body) (hstart : r.span.start ≤ q.span.start)
    (hstop : q.span.stop ≤ r.span.stop) : q.InBody blk.program.body := by
  obtain ⟨hlaid, hinset⟩ := ht.block hb
  have hplaced := statementsPlaced_iff.1 ht.placed _ hb
  have hmem := Block.span_mem_program hr
  have hin := hlaid.parts.inside r.span hmem
  obtain ⟨p, start, b, depth, next, h⟩ :=
    h.block ht hb (hin.lower.trans hstart) (hstop.trans hin.upper)
  have hne := call_ne hlaid hinset hmem hstart
  have hbefore : ∀ c ∈ blk.call.parts ++ blk.program.params.map (·.span), c.stop ≤ q.span.start :=
    fun c hc => (hlaid.before_program hr hc).trans hstart
  have hafter : ∀ c ∈ (blk.inverse.map Arm.parts).getD [], q.span.stop ≤ c.start :=
    fun c hc => hstop.trans (hlaid.after_program hr hc)
  have hcall := passed_call hlaid b fun c hc => hbefore c (List.mem_append_left _ hc)
  have hparams (checked : Bool) : q.Passed (marks (paramPattern checked blk.program.params)) :=
    passed_of_placed (placed_paramPattern checked hlaid.parts.scattered.left.right.left) fun c hc =>
      hbefore c (List.mem_append_right _ hc)
  have hscattered := hlaid.parts.scattered.right
  obtain ⟨c, ⟨_, _, _, _⟩, _, _, _⟩ := blk
  obtain ⟨-, -, hinverse⟩ := hplaced
  rw [statement] at h
  split at h
  · obtain ⟨p', start', h⟩ := At.inComponentBlock (h.skip rfl) hne hcall
    have h := At.left h (ahead_of_placed (placed_elseArm b (depth + 1) hinverse hscattered) hafter)
    obtain ⟨start'', h⟩ := At.inContents h (hparams true) (by simp [Passed])
    exact ⟨p', start'', _, _, .inl h⟩
  · split at h
    · obtain ⟨other, hother, hsub⟩ := placed_elseBody b (depth + 1) hinverse hscattered
      obtain ⟨p', start', h⟩ := At.inIfBody (h.skip rfl) hne hcall fun d hd m hm =>
        ahead_of_placed hother hafter m (hsub d hd m hm)
      exact ⟨p', start', _, _, .inl h.within⟩
    · obtain ⟨p', start', h⟩ := At.inPlaceholderBlock ((h.skip rfl).skip rfl) hne hcall
      have h := At.left h
        (ahead_of_placed (placed_placeholderElse b (depth + 1) hinverse hscattered) hafter)
      obtain ⟨start'', h⟩ := At.inPlaceholderArm h (hparams false)
      exact ⟨p', start'', _, _, .inl h⟩

theorem InBody.inverse (h : q.InBody ss) (ht : Tidy closed ss) {blk : Block} (hb : .block blk ∈ ss)
    {arm : Arm} (harm : arm ∈ blk.inverse) {r : Statement} (hr : r ∈ arm.body)
    (hstart : r.span.start ≤ q.span.start) (hstop : q.span.stop ≤ r.span.stop) :
    q.InBody arm.body := by
  obtain ⟨hlaid, hinset⟩ := ht.block hb
  have hplaced := statementsPlaced_iff.1 ht.placed _ hb
  have hmem := Block.span_mem_inverse harm hr
  have hin := hlaid.parts.inside r.span hmem
  obtain ⟨p, start, b, depth, next, h⟩ :=
    h.block ht hb (hin.lower.trans hstart) (hstop.trans hin.upper)
  have hne := call_ne hlaid hinset hmem hstart
  have hbefore : ∀ c ∈ blk.call.parts ++ blk.program.parts ++ arm.params.map (·.span),
      c.stop ≤ q.span.start := fun c hc => (hlaid.before_inverse harm hr hc).trans hstart
  have hcall := passed_call hlaid b fun c hc =>
    hbefore c (List.mem_append_left _ (List.mem_append_left _ hc))
  have hprogram := hlaid.parts.scattered.left.right
  have hscattered := hlaid.parts.scattered.right
  rw [Option.mem_def.1 harm, Option.map_some, Option.getD_some] at hscattered
  have hparams (checked : Bool) : q.Passed (marks (paramPattern checked arm.params)) :=
    passed_of_placed (placed_paramPattern checked hscattered.left) fun c hc =>
      hbefore c (List.mem_append_right _ hc)
  obtain ⟨c, ⟨body, params, _, _⟩, inverse, _, _⟩ := blk
  obtain rfl : inverse = some arm := harm
  cases arm
  obtain ⟨-, hbody, -⟩ := hplaced
  -- the first arm is passed
  have hfirst (checked : Bool) (depth' : Nat) : q.Passed (marks (paramPattern checked params) ++
      marks (statements (b.enter params) depth' body)) :=
    passed_of_placed
      (placed_arm checked hprogram (placed_statements (b.enter params) depth' hbody hprogram.right))
      fun c hc => hbefore c (List.mem_append_left _ (List.mem_append_right _ hc))
  rw [statement] at h
  split at h
  · obtain ⟨p', start', h⟩ := At.inComponentBlock (h.skip rfl) hne hcall
    have h := At.right h fun m hm => hfirst true (depth + 2) m (by simpa [marks_blockContents] using hm)
    rw [elseArm] at h
    obtain ⟨start'', h⟩ := At.inContents h (hparams true) (by simp [Passed])
    exact ⟨p', start'', _, _, .inl h⟩
  · split at h
    · rw [elseBody] at h
      obtain ⟨p', start', h⟩ := At.inElseBody (h.skip rfl) hne hcall fun m hm =>
        hfirst true (depth + 1) m (List.mem_append_right _ (by simpa using hm))
      exact ⟨p', start', _, _, .inl h⟩
    · obtain ⟨p', start', h⟩ := At.inPlaceholderBlock ((h.skip rfl).skip rfl) hne hcall
      have h := At.right h fun m hm => hfirst false (depth + 2) m (mem_placeholderArm hm)
      rw [placeholderElse] at h
      obtain ⟨start'', h⟩ := At.inPlaceholderArm h (hparams false)
      exact ⟨p', start'', _, _, .inl h⟩

theorem InBody.children (h : q.InBody ss) (ht : Tidy closed ss) {e : Element} (he : .element e ∈ ss)
    {r : Statement} (hr : r ∈ e.children) (hstart : r.span.start ≤ q.span.start)
    (hstop : q.span.stop ≤ r.span.stop) : q.InBody e.children := by
  obtain ⟨hlaid, hinset⟩ := ht.element he
  have hin := hinset.pieces_in r.span
    (List.mem_append_right _ (List.mem_append_left _ (List.mem_map_of_mem hr)))
  have hlower := hin.lower
  have hupper := hin.upper
  have hitem := h.item ht he (show e.span.start ≤ _ by omega) (show _ ≤ e.span.stop by omega)
  have hne : e.span ≠ q.span := by
    intro heq
    rw [heq] at hlower
    omega
  have hbefore : ∀ c ∈ e.opening, c.stop ≤ q.span.start :=
    fun c hc => (hinset.before_children hr hc).trans hstart
  have htag := (hlaid.pieces.inside e.tag.span (by simp [Element.pieces])).ordered
  have hparams := placed_paramPattern true hlaid.pieces.left.tail.right
  have hpattern : q.Passed (marks (paramPattern true e.params)) := passed_of_placed hparams fun c hc =>
    hbefore c (List.mem_cons_of_mem _ (List.mem_append_right _ hc))
  have hclose (b : Bindings) : q.Ahead (closeMarks b e.tag.text e.closeTagSpan) :=
    ahead_of_placed (placed_closeMarks b hlaid.close) fun c hc =>
      hstop.trans (hinset.after_children hr hc)
  have hplain (b : Bindings) := passed_of_placed
    (placed_opening b false hlaid (placed_quotedName e.tag.text htag) hparams) hbefore
  have hcomponent (b : Bindings) := passed_of_placed
    (placed_opening b true hlaid (placed_tagPath b hlaid.tag) hparams) hbefore
  have hname (hsigil : e.tag.text.toList.head? = some ':') :
      q.Passed (marks (quotedName (withoutSigil e.tag).text (withoutSigil e.tag).span)) := by
    have hin := withoutSigil_in hlaid.tag hsigil
    refine passed_of_placed (placed_quotedName _ hin.ordered) fun c hc => ?_
    rw [List.mem_singleton.1 hc]
    exact hin.upper.trans (hbefore e.tag.span List.mem_cons_self)
  have hsome : e.children.isEmpty = false := List.isEmpty_eq_false_iff.2 (List.ne_nil_of_mem hr)
  cases e
  obtain ⟨p, start, b, depth, next, h | ⟨-, h⟩⟩ := hitem
  · rw [statement] at h
    dsimp only at h hsome
    split at h
    · -- a named block outside of a component
      obtain ⟨p', h, -⟩ := At.node ((h.skip rfl).skip rfl) hne
      exact ⟨p', _, _, _, .inl (At.skip (At.left h (by simp [Ahead])) rfl)⟩
    · split at h
      · rw [hsome, Bool.false_and, if_neg Bool.false_ne_true] at h
        split at h
        · obtain ⟨p', start', hlt, h⟩ := At.inComponentElement (h.skip rfl) hne (hcomponent b) (hclose b)
          exact ⟨p', start', _, _, .inr ⟨hlt, h⟩⟩
        · obtain ⟨p', start', -, h⟩ := At.inComponentElement (h.skip rfl) hne (hcomponent b) (hclose b)
          obtain ⟨start'', h⟩ := At.inContents h hpattern (by simp [Passed])
          exact ⟨p', start'', _, _, .inl h⟩
      · obtain ⟨p', start', h⟩ := At.inPlainElement (h.skip rfl) hne (hplain b)
        exact ⟨p', start', _, _, .inl h⟩
  · rw [namedBlock] at h
    split at h
    · rename_i hsigil
      obtain ⟨p', h, -⟩ := At.node h hne
      obtain ⟨start', h⟩ := At.inContents h hpattern (hname (by simpa using hsigil))
      exact ⟨p', start', _, _, .inl h⟩
    · exact absurd rfl h.marks_ne_nil

/-- If the sought node stands in a body, it is in what is written for that body. -/
theorem InBody.of_isBody {body : List Statement} (hbody : IsBody ss body) (ht : Tidy closed ss)
    (h : q.InBody ss) {s : Statement} (hs : s ∈ body) (hspan : s.span = q.span) :
    q.InBody body ∧ ∃ closed', Tidy closed' body := by
  have haround {r : Statement} (hr : r.span.start ≤ s.span.start ∧ s.span.stop ≤ r.span.stop) :
      r.span.start ≤ q.span.start ∧ q.span.stop ≤ r.span.stop := by rwa [hspan] at hr
  induction hbody generalizing closed with
  | self ss => exact ⟨h, closed, ht⟩
  | program hb hbody ih =>
    obtain ⟨r, hr, hspans⟩ := hbody.around (ht.program hb) hs
    obtain ⟨hstart, hstop⟩ := haround hspans
    exact ih (ht.program hb) (h.program ht hb hr hstart hstop) hs
  | inverse hb harm hbody ih =>
    obtain ⟨r, hr, hspans⟩ := hbody.around (ht.inverse hb harm) hs
    obtain ⟨hstart, hstop⟩ := haround hspans
    exact ih (ht.inverse hb harm) (h.inverse ht hb harm hr hstart hstop) hs
  | children he hbody ih =>
    obtain ⟨r, hr, hspans⟩ := hbody.around (ht.children he) hs
    obtain ⟨hstart, hstop⟩ := haround hspans
    exact ih (ht.children he) (h.children ht he hr hstart hstop) hs

/-! ## A directive and what it applies to -/

/-- A directive in front of a statement with a node comes with the tree, for the span of that statement. -/
theorem InBody.mem_directives (h : q.InBody ss) {c : Comment} {s : Statement} (hc : Precedes ss c s)
    (hspan : s.span = q.span) {kind : DirectiveKind}
    (hkind : Recognized.ofComment c.value = .directive kind) (hchecks : kind ≠ .noCheck) :
    ⟨kind, c.span, some q.span⟩ ∈ q.directives := by
  obtain ⟨front, gap, back, rfl, hgap, hs⟩ := hc
  have hcomment : ⟨kind, c.span, some q.span⟩ ∈
      Draft.directives (comment c (nextSignificant (gap ++ s :: back))) := by
    rw [nextSignificant_eq hgap hs, hspan, directives_comment hkind hchecks]
    exact List.mem_singleton.2 rfl
  obtain ⟨p, start, b, depth, h | ⟨-, h⟩⟩ := h
  · rw [statements_eq] at h
    refine h.directives _ (mem_directives_sequence ?_ front)
    rw [statement]
    exact hcomment
  · rw [namedBlocks_eq] at h
    refine h.directives _ (mem_directives_sequence ?_ front)
    rw [namedBlock]
    exact hcomment

/-- The node of a statement keeps what it holds away from its ends, and what the tree has before it stands
for what comes before it; unless it has no code. -/
theorem InBody.fronted (h : q.InBody ss) (ht : Tidy true ss) {s : Statement} (hs : s ∈ ss)
    (hsignificant : s.IsSignificant) (hspan : s.span = q.span) :
    q.root.Fronted q.found ∧ q.found.Inset ∨ q.found.generated.start = q.found.generated.stop := by
  have hplaced := statementsPlaced_iff.1 ht.placed s hs
  have hparts := (statementsNeat_iff.1 ht.neat s hs).parts_in
  rw [hspan] at hparts
  have hcells {inside : Draft} (hin : Placed s.parts (marks inside)) :
      ∀ k ∈ marks inside, k.span.In (q.span.start + 1) (q.span.stop - 1) := by
    intro k hk
    obtain ⟨c, hc, hkc⟩ := hin.within k hk
    exact hkc.mono (hparts c hc).lower (hparts c hc).upper
  obtain ⟨p, start, b, depth, next, h | ⟨hlt, h⟩⟩ :=
    h.item ht hs (by rw [hspan]) (by rw [hspan])
  · rcases encloses_statement b depth next hplaced with hnil | ⟨label, keepEmpty, inside, hmarks, -, hin⟩
    · exact absurd hnil h.marks_ne_nil
    · rcases statement_eq_line b depth next hsignificant with ⟨t, rfl⟩ | ⟨d, hline⟩
      · -- a text has a node, but no code
        obtain ⟨-, place, -, hfound⟩ := h.eq_tree (m := ⟨.text, t.span, true, []⟩) rfl hspan (by simp)
        rw [hfound]
        exact .inr rfl
      · rw [hline] at h hmarks
        have hstart : p.generated.start < start + lengthOf (line depth) := by
          have := h.starts
          have := lengthOf_line_pos depth
          omega
        have h := h.skip rfl
        exact .inl ⟨h.fronted hmarks hspan (hcells hin) hstart, h.inset hmarks hspan (hcells hin)⟩
  · rcases encloses_namedBlockItem b depth next hplaced with
      hnil | ⟨label, keepEmpty, inside, hmarks, -, hin⟩
    · exact absurd hnil h.marks_ne_nil
    · exact .inl ⟨h.fronted hmarks hspan (hcells hin) hlt, h.inset hmarks hspan (hcells hin)⟩

end

end Sought

end Draft

end TypedTemplate
