/-
What is said in the code of a template, by the template alone: the notes of its statements one after another, without
the code around them.
-/
import TypedTemplate.Proofs.Emit.Reports
import TypedTemplate.Proofs.Emit.Statement

namespace TypedTemplate

open Draft Template Emit

/-! ## Notes of statements -/

namespace Draft.Note

/-- A parameter that cannot be written as it is. -/
def ofParam (p : Name) : List Note :=
  if isIdentifier p.text then [] else [.issue (.invalidParam p.text) p.span]

def ofSplattributes (a : Attribute) : List Note :=
  if a.isValueless then [] else [.issue .splattributesValue a.span]

/-- The notes of an opening tag. The arguments of a component come before all else. -/
def ofOpening (b : Bindings) (component : Bool) (parts : List TagPart) (attributes : List Attribute)
    (modifiers : List Call) : List Note :=
  (if component then (attributes.filter (·.isArgument)).flatMap fun a => notes (attrValue b true a.value) else []) ++
    notes (tagComments parts) ++ (attributes.filter (·.isSplattributes)).flatMap ofSplattributes ++
    ((attributes.filter fun a => !a.isSplattributes && !(component && a.isArgument)).flatMap fun a =>
      notes (attrValue b false a.value)) ++
    modifiers.flatMap fun m => notes (modifier b m)

/-- The notes of a block before its bodies, by what the callee stands for. -/
def ofBlockCall (b : Bindings) (c : Call) : List Note :=
  match b.formOf? c.callee with
  | none => notes (call b c).resolve
  | some use =>
    if use.form = .ifElse ∨ use.form = .ifNot then notes (condition b use c)
    else .issue (.form use.name .asBlock) c.span :: notes (call b c).args

/-- The parameters of a block are declared only if its callee is called. -/
def ofBlockParams (b : Bindings) (callee : Expr) (params : List Name) : List Note :=
  if (b.formOf? callee).isNone then params.flatMap ofParam else []

mutual

def ofStatements (b : Bindings) : List Statement → List Note
  | [] => []
  | s :: rest => ofStatement b (nextSignificant rest) s ++ ofStatements b rest

def ofStatement (b : Bindings) (next : Option Span) : Statement → List Note
  | .text _ => []
  | .comment _ => []
  | .mustacheComment c => notes (comment c next)
  | .mustache m => notes (mustacheStatement b 0 m)
  | .block ⟨c, ⟨body, params, _, _⟩, inverse, _, _⟩ =>
    ofBlockCall b c ++ ofBlockParams b c.callee params ++ ofStatements (b.enter params) body ++
      ofInverse b c.callee inverse
  | .element ⟨tag, attributes, modifiers, comments, params, children, selfClosing, closeTag, span⟩ =>
    if tag.text.toList.head? == some ':' then .issue .strayNamedBlock span :: ofStatements b children
    else
      ofOpening b (isComponent b tag.text) (Element.parts
          ⟨tag, attributes, modifiers, comments, params, children, selfClosing, closeTag, span⟩) attributes modifiers ++
        if isComponent b tag.text then
          if hasNamedBlock children then ofNamedBlocks b children
          else params.flatMap ofParam ++ ofStatements (b.enter params) children
        else ofStatements b children

def ofInverse (b : Bindings) (callee : Expr) : Option Arm → List Note
  | none => []
  | some ⟨body, params, _, _⟩ =>
    ofBlockParams b callee params ++ ofStatements (CallSite.elseBindings b callee params) body

def ofNamedBlocks (b : Bindings) : List Statement → List Note
  | [] => []
  | s :: rest => ofNamedBlock b (nextSignificant rest) s ++ ofNamedBlocks b rest

/-- A child of a component that has named blocks. -/
def ofNamedBlock (b : Bindings) (next : Option Span) : Statement → List Note
  | .text t => if t.isBlank then [] else [.issue .mixedNamedBlocks t.span]
  | .comment _ => []
  | .mustacheComment c => notes (comment c next)
  | .mustache m => [.issue .mixedNamedBlocks m.span]
  | .block ⟨_, _, _, _, span⟩ => [.issue .mixedNamedBlocks span]
  | .element ⟨tag, _, _, _, params, children, _, _, span⟩ =>
    if tag.text.toList.head? == some ':' then params.flatMap ofParam ++ ofStatements (b.enter params) children
    else [.issue .mixedNamedBlocks span]

end

end Draft.Note

/-! ## Bodies -/

namespace Emit

variable {b : Bindings} {use : FormUse} {c : Call}

theorem notes_paramPattern (checked : Bool) (params : List Name) :
    notes (paramPattern checked params) = if checked then params.flatMap Note.ofParam else [] := by
  have hparam (p : Name) : notes (if checked && !isIdentifier p.text then [.issue (.invalidParam p.text) p.span] else []) =
      if checked then Note.ofParam p else [] := by
    cases checked <;> cases h : isIdentifier p.text <;> simp [Note.ofParam, h]
  simp only [paramPattern, notes_append, notes_text, notes_nil, notes_separated, List.flatMap_map, hparam,
    notes_localIdentifier, List.append_nil, List.nil_append]
  cases checked <;> simp

@[simp] theorem notes_blockContents (depth : Nat) (name : Draft) (params : List Name) (body : Draft) :
    notes (blockContents depth name params body) = params.flatMap Note.ofParam ++ notes name ++ notes body := by
  simp [blockContents, notes_paramPattern]

@[simp] theorem notes_placeholderArm (depth : Nat) (params : List Name) (body : Draft) :
    notes (placeholderArm depth params body) = notes body := by
  unfold placeholderArm
  split <;> simp [notes_paramPattern]

theorem notes_ifBlock (depth : Nat) (hform : b.formOf? c.callee = some use) (body : Draft) (inverse : Option Draft) :
    notes (ifBlock b depth use c body inverse) =
      notes (condition b use c) ++ notes body ++ notes (inverse.getD []) := by
  cases inverse <;> simp [ifBlock, notes_mention depth use (notes_callee hform)]

theorem notes_mustacheStatement (b : Bindings) (depth : Nat) (m : Mustache) :
    notes (mustacheStatement b depth m) = notes (mustacheStatement b 0 m) := by
  unfold mustacheStatement
  split
  · rename_i hform
    simp [yieldStatement, notes_mention _ _ (notes_callee hform)]
  · rfl

theorem reports_blockCall (b : Bindings) (c : Call) : Reports (Note.ofBlockCall b c) (CallSite.ofCall b .block c) := by
  unfold Note.ofBlockCall
  split
  · exact (callReports b c).resolve .block
  · rename_i use hform
    split
    · exact reports_condition hform ‹_›
    · exact (callReports b c).misplaced hform (.block ‹_›)

/-! ## Elements -/

theorem notes_openTag (b : Bindings) (depth : Nat) (component : Bool) (parts : List TagPart)
    (attributes : List Attribute) (modifiers : List Call) :
    (if component then notes (arguments b attributes) else []) ++
        notes (OpenTag.draft b depth (.of parts attributes modifiers component)) =
      Note.ofOpening b component parts attributes modifiers := by
  have hsplats (a : Attribute) : notes (splattributes depth a) = Note.ofSplattributes a := by
    unfold splattributes Note.ofSplattributes
    split <;> simp
  have hattributes (as : List Attribute) : notes (attributeObject b depth as) =
      as.flatMap fun a => notes (attrValue b false a.value) := by
    unfold attributeObject
    split
    · rename_i hnone
      rw [List.isEmpty_iff.1 hnone]
      rfl
    · simp [attrProperty]
  simp [OpenTag.draft, OpenTag.of, Note.ofOpening, hsplats, hattributes, arguments, attrProperty]

theorem notes_plainElement (b : Bindings) (depth : Nat) (tag : Name) (span : Span) (t : OpenTag) (body : Draft) :
    notes (plainElement b depth tag span t body) = notes (t.draft b (depth + 1)) ++ notes body := by
  cases hused : t.isUsed <;> simp [plainElement, bareUse, hused]

theorem notes_componentElement (b : Bindings) (depth : Nat) (tag : Name) (span : Span) (attributes : List Attribute)
    (t : OpenTag) (closeTag : Option Span) (blocks : Option Draft) :
    notes (componentElement b depth tag span attributes t closeTag blocks) =
      notes (arguments b attributes) ++ notes (t.draft b (depth + 1)) ++ notes (blocks.getD []) := by
  cases blocks <;> cases closeTag <;> cases hused : t.isUsed <;> simp [componentElement, bareUse, hused]

/-! ## Statements -/

mutual

theorem notes_statements (b : Bindings) (depth : Nat) : ∀ ss : List Statement,
    notes (statements b depth ss) = Note.ofStatements b ss
  | [] => by
    rw [statements, Note.ofStatements]
    rfl
  | s :: rest => by
    rw [statements, Note.ofStatements, notes_append, notes_statement b depth _ s, notes_statements b depth rest]

theorem notes_statement (b : Bindings) (depth : Nat) (next : Option Span) : ∀ s : Statement,
    notes (statement b depth next s) = Note.ofStatement b next s
  | .text _ => by
    rw [statement, Note.ofStatement]
    rfl
  | .comment _ => by
    rw [statement, Note.ofStatement]
    rfl
  | .mustacheComment _ => by rw [statement, Note.ofStatement]
  | .mustache m => by rw [statement, Note.ofStatement, notes_line, notes_mustacheStatement]
  | .block ⟨_, ⟨body, params, _, _⟩, inverse, _, _⟩ => by
    have hbody (depth' : Nat) := notes_statements (b.enter params) depth' body
    rw [statement, Note.ofStatement, Note.ofBlockCall, Note.ofBlockParams]
    split
    · rename_i hform
      simp [hform, componentBlock, hbody, notes_elseArm b (depth + 1) hform inverse]
    · rename_i use hform
      by_cases hcondition : use.form = .ifElse ∨ use.form = .ifNot
      · simp [hform, hcondition, notes_ifBlock depth hform, hbody,
          notes_elseBody b (depth + 1) hform hcondition inverse]
      · simp [hform, hcondition, placeholderBlock, hbody, notes_placeholderElse b (depth + 1) hform hcondition inverse]
  | .element ⟨_, _, _, _, params, children, _, _, _⟩ => by
    rw [statement, Note.ofStatement]
    dsimp only
    split
    · simp [strayNamedBlock, notes_statements b (depth + 1) children]
    · split
      · rename_i hcomponent
        rw [hcomponent, notes_line, notes_componentElement, ← notes_openTag b (depth + 1), if_pos rfl]
        refine congrArg _ ?_
        split
        · rename_i hempty
          simp only [Bool.and_eq_true, List.isEmpty_iff] at hempty
          simp [hempty, hasNamedBlock, Note.ofStatements]
        · split
          · exact notes_namedBlocks b (depth + 1) children
          · simp [notes_statements (b.enter params) (depth + 2) children]
      · rename_i hplain
        rw [Bool.eq_false_iff.2 hplain, notes_line, notes_plainElement, ← notes_openTag b (depth + 1),
          notes_statements b (depth + 1) children]
        simp

theorem notes_elseArm (b : Bindings) (depth : Nat) {callee : Expr} (hform : b.formOf? callee = none) :
    ∀ inverse : Option Arm, notes (elseArm b depth inverse) = Note.ofInverse b callee inverse
  | none => by
    rw [elseArm, Note.ofInverse]
    rfl
  | some ⟨body, params, _, _⟩ => by
    rw [elseArm, Note.ofInverse, CallSite.elseBindings_none hform]
    simp [Note.ofBlockParams, hform, notes_statements (b.enter params) (depth + 1) body]

theorem notes_elseBody (b : Bindings) (depth : Nat) {callee : Expr} {use : FormUse}
    (hform : b.formOf? callee = some use) (hcondition : use.form = .ifElse ∨ use.form = .ifNot) :
    ∀ inverse : Option Arm, notes ((elseBody b depth inverse).getD []) = Note.ofInverse b callee inverse
  | none => by
    rw [elseBody, Note.ofInverse]
    rfl
  | some ⟨body, params, _, _⟩ => by
    rw [elseBody, Note.ofInverse, CallSite.elseBindings_condition hform hcondition]
    simp [Note.ofBlockParams, hform, notes_statements b depth body]

theorem notes_placeholderElse (b : Bindings) (depth : Nat) {callee : Expr} {use : FormUse}
    (hform : b.formOf? callee = some use) (hcondition : ¬ (use.form = .ifElse ∨ use.form = .ifNot)) :
    ∀ inverse : Option Arm, notes (placeholderElse b depth inverse) = Note.ofInverse b callee inverse
  | none => by
    rw [placeholderElse, Note.ofInverse]
    rfl
  | some ⟨body, params, _, _⟩ => by
    rw [placeholderElse, Note.ofInverse, CallSite.elseBindings_form hform hcondition]
    simp [Note.ofBlockParams, hform, notes_statements (b.enter params) (depth + 1) body]

theorem notes_namedBlocks (b : Bindings) (depth : Nat) : ∀ ss : List Statement,
    notes (namedBlocks b depth ss) = Note.ofNamedBlocks b ss
  | [] => by
    rw [namedBlocks, Note.ofNamedBlocks]
    rfl
  | s :: rest => by
    rw [namedBlocks_cons, Note.ofNamedBlocks, notes_append, notes_namedBlock b depth _ s,
      notes_namedBlocks b depth rest]

theorem notes_namedBlock (b : Bindings) (depth : Nat) (next : Option Span) : ∀ s : Statement,
    notes (namedBlock b depth next s) = Note.ofNamedBlock b next s
  | .element ⟨tag, _, _, _, params, children, _, _, span⟩ => by
    rw [namedBlock, Note.ofNamedBlock]
    split
    · simp [notes_statements (b.enter params) (depth + 1) children]
    · rfl
  | .text t => by
    rw [namedBlock, Note.ofNamedBlock]
    split <;> rfl
  | .mustacheComment _ => by rw [namedBlock, Note.ofNamedBlock]
  | .comment _ | .mustache _ | .block ⟨_, _, _, _, _⟩ => by
    rw [namedBlock, Note.ofNamedBlock]
    rfl

end

end Emit

end TypedTemplate
