/-
Statements written step by step. Bodies raise and lower the indentation and enter and leave blocks by hand, and
names are looked up in the blocks that are open at that time. Each of the emitters here writes the draft of the
statement it is for, so that compiling step by step gives the compiled template.
-/
import TypedTemplate.Proofs.Emitter.Basic

namespace TypedTemplate.Emitter

open Template

/-! ## Mustaches -/

/-- Mentions a callee that was imported, on a line before the form. -/
def mention (use : FormUse) (callee : Expr) : Step :=
  if use.imported then
    text "__glintDSL__.noop(" >=> write (Emit.expr · callee) >=> text ");" >=> newline
  else .ok

def yieldStatement (use : FormUse) (c : Call) : Step :=
  node "MustacheStatement" c.span <|
    mention use c.callee >=> text "__glintDSL__.yieldToBlock(__glintRef__, " >=>
    write (fun _ => Emit.yieldTarget use c.hash.pairs) >=> text ")(" >=>
    write (fun b => Draft.separated ", " (Emit.exprs b c.params)) >=> text ");"

def contentStatement (m : Mustache) : Step :=
  node "MustacheStatement" m.span <|
    text "__glintDSL__.emitContent(" >=> write (Emit.mustacheValue · false m) >=> text ");"

def mustacheStatement (m : Mustache) : Step :=
  reading fun b =>
    match b.formOf? m.call.callee with
    | some use => if use.form = .yield then yieldStatement use m.call else contentStatement m
    | none => contentStatement m

/-! ## Opening tags -/

def splattributes (a : Attribute) : Step :=
  (if a.isValueless then .ok else issue .splattributesValue a.span) >=> newline >=>
    node "AttrNode" a.span
      (text "__glintDSL__.applySplattributes(__glintRef__.element, __glintY__.element);")

def attributeObject (attributes : List Attribute) : Step :=
  if attributes.isEmpty then .ok
  else
    newline >=> text "__glintDSL__.applyAttributes(__glintY__.element, \x7b" >=> indent >=>
    each (fun a => newline >=> write (Emit.attrProperty · false a.name a) >=> text ",") attributes >=>
    dedent >=> newline >=> text "\x7d);"

def openTag (t : Emit.OpenTag) : Step :=
  write (fun _ => Emit.tagComments t.parts) >=> each splattributes t.splats >=>
    attributeObject t.attributes >=> each (fun m => newline >=> write (Emit.modifier · m)) t.modifiers

/-! ## Bodies -/

/-- A body that takes its parameters from the block of that name. -/
def blockContents (name : Draft) (params : List Name) (body : Step) : Step :=
  newline >=> text "\x7b" >=> indent >=> newline >=> write (fun _ => Emit.paramPattern true params) >=>
    text "__glintY__.blockParams[" >=> write (fun _ => name) >=> text "];" >=>
    push params >=> body >=> pop >=> dedent >=> newline >=> text "\x7d"

/-- A body whose parameters can be anything. -/
def placeholderArm (params : List Name) (body : Step) : Step :=
  newline >=> text "\x7b" >=> indent >=>
    (if params.isEmpty then .ok
     else newline >=> write (fun _ => Emit.paramPattern false params) >=> text "[] as any[];") >=>
    push params >=> body >=> pop >=> dedent >=> newline >=> text "\x7d"

/-- The other body of a condition. -/
def elseBody (body : Step) : Step :=
  text " else \x7b" >=> indent >=> body >=> dedent >=> newline >=> text "\x7d"

/-- A condition with a body that binds `params`, and `other` after it. -/
def ifBlock (use : FormUse) (c : Call) (params : List Name) (body other : Step) : Step :=
  node "BlockStatement" c.span <|
    mention use c.callee >=> text (if use.form = .ifNot then "if (!(" else "if ((") >=>
    write (Emit.condition · use c) >=> text ")) \x7b" >=> indent >=> push params >=> body >=> pop >=> dedent >=>
    newline >=> text "\x7d" >=> other

/-- A block whose callee cannot be called. -/
def placeholderBlock (c : Call) (arms : Step) : Step :=
  node "BlockStatement" c.span <|
    text "\x7b" >=> indent >=> newline >=> text "[" >=> write (fun b => (Emit.call b c).args) >=> text "];" >=>
    arms >=> dedent >=> newline >=> text "\x7d"

/-- A block that calls a component. -/
def componentBlock (c : Call) (arms : Step) : Step :=
  node "BlockStatement" c.span <|
    text "\x7b" >=> indent >=> newline >=> text "const __glintY__ = __glintDSL__.emitComponent(" >=>
    write (fun b => (Emit.call b c).resolve) >=> text ");" >=> arms >=> dedent >=> newline >=> text "\x7d"

/-! ## Elements -/

def bareUse : Step := newline >=> text "__glintY__;"

/-- An element of the markup. -/
def plainElement (tag : Name) (span : Span) (t : Emit.OpenTag) (body : Step) : Step :=
  node "ElementNode" span <|
    text "\x7b" >=> indent >=> newline >=> text "const __glintY__ = __glintDSL__.emitElement(" >=>
    write (fun _ => Emit.quotedName tag.text tag.span) >=> text ");" >=> openTag t >=>
    (if t.isUsed then .ok else bareUse) >=> body >=> dedent >=> newline >=> text "\x7d"

/-- A component; `blocks` writes its blocks, or what stands for them if it has none. -/
def componentElement (tag : Name) (span : Span) (attributes : List Attribute) (t : Emit.OpenTag)
    (closeTag : Option Span) (blocks : Step) : Step :=
  node "ElementNode" span <|
    text "\x7b" >=> indent >=> newline >=>
    text "const __glintY__ = __glintDSL__.emitComponent(__glintDSL__.resolve(" >=>
    write (Emit.tagPath · tag.text tag.span) >=> text ")(" >=> write (Emit.arguments · attributes) >=>
    text "));" >=> openTag t >=> blocks >=>
    each (fun close => newline >=> write (Emit.tagPath · tag.text close) >=> text ";") closeTag.toList >=>
    dedent >=> newline >=> text "\x7d"

/-- A named block outside a component. -/
def strayNamedBlock (span : Span) (body : Step) : Step :=
  issue .strayNamedBlock span >=>
    node "ElementNode" span (text "\x7b" >=> indent >=> body >=> dedent >=> newline >=> text "\x7d")

/-! ## Statements -/

mutual

/-- Statements one after another. -/
def statements : List Statement → Step
  | [] => .ok
  | s :: rest => statement (Emit.nextSignificant rest) s >=> statements rest

/-- One statement; `next` is the node that a directive in it applies to. -/
def statement (next : Option Span) : Statement → Step
  | .text t => write fun _ => [.mark .text t.span true []]
  | .comment _ => .ok
  | .mustacheComment c => write fun _ => Emit.comment c next
  | .mustache m => newline >=> mustacheStatement m
  | .block ⟨c, ⟨body, params, _, _⟩, inverse, _, _⟩ =>
    newline >=> reading fun b =>
      match b.formOf? c.callee with
      | none =>
        componentBlock c
          (blockContents [.text "\"default\""] params (statements body) >=> elseArm inverse)
      | some use =>
        if use.form = .ifElse ∨ use.form = .ifNot then
          ifBlock use c params (statements body) (elseStatements inverse)
        else
          issue (.form use.name .asBlock) c.span >=>
            placeholderBlock c (placeholderArm params (statements body) >=> placeholderElse inverse)
  | .element ⟨tag, attributes, modifiers, comments, params, children, selfClosing, closeTag, span⟩ =>
    let parts := Element.parts
      ⟨tag, attributes, modifiers, comments, params, children, selfClosing, closeTag, span⟩
    newline >=> reading fun b =>
      if tag.text.toList.head? == some ':' then
        strayNamedBlock span (statements children)
      else if Emit.isComponent b tag.text then
        let t := Emit.OpenTag.of parts attributes modifiers true
        componentElement tag span attributes t closeTag <|
          if children.isEmpty && params.isEmpty then if t.isUsed then .ok else bareUse
          else if Emit.hasNamedBlock children then namedBlocks children
          else blockContents [.text "\"default\""] params (statements children)
      else
        plainElement tag span (.of parts attributes modifiers false) (statements children)

/-- The other arm of a block that calls a component. -/
def elseArm : Option Arm → Step
  | none => .ok
  | some ⟨body, params, _, _⟩ => blockContents [.text "\"else\""] params (statements body)

/-- The other body of a condition. -/
def elseStatements : Option Arm → Step
  | none => .ok
  | some ⟨body, _, _, _⟩ => elseBody (statements body)

/-- The other arm of a block whose callee cannot be called. -/
def placeholderElse : Option Arm → Step
  | none => .ok
  | some ⟨body, params, _, _⟩ => placeholderArm params (statements body)

/-- The children of a component that has named blocks. -/
def namedBlocks : List Statement → Step
  | [] => .ok
  | .element ⟨tag, _, _, _, params, children, _, _, span⟩ :: rest =>
    (if tag.text.toList.head? == some ':' then
      let name := Emit.withoutSigil tag
      node "ElementNode" span
        (blockContents (Emit.quotedName name.text name.span) params (statements children))
     else issue .mixedNamedBlocks span) >=> namedBlocks rest
  | .mustacheComment c :: rest => write (fun _ => Emit.comment c (Emit.nextSignificant rest)) >=> namedBlocks rest
  | .comment _ :: rest => namedBlocks rest
  | .text t :: rest => (if t.isBlank then .ok else issue .mixedNamedBlocks t.span) >=> namedBlocks rest
  | .mustache m :: rest => issue .mixedNamedBlocks m.span >=> namedBlocks rest
  | .block ⟨_, _, _, _, span⟩ :: rest => issue .mixedNamedBlocks span >=> namedBlocks rest

end

/-! ## What they write -/

section

variable {body other arms blocks : Step} {draft draft' : Bindings → Nat → Draft}

theorem writes_text (s : String) : Writes (text s) fun _ _ => [.text s] := fun e => text_eq e s

theorem writes_newline : Writes newline fun _ n => [Emit.line n] := fun e => newline_eq e

theorem writes_issue (cause : IssueCause) (span : Span) : Writes (issue cause span) fun _ _ => [.issue cause span] :=
  fun e => issue_eq e cause span

theorem writes_write (d : Bindings → Draft) : Writes (write d) fun b _ => d b := fun e => write_eq e d

theorem writes_nothing : Writes .ok fun _ _ => [] := fun e => by rw [put_nil]

theorem writes_mention (use : FormUse) (callee : Expr) :
    Writes (mention use callee) fun b n => Emit.mention n use (Emit.expr b callee) := by
  intro e
  unfold mention Emit.mention
  split
  · simp
  · simp

theorem writes_yieldStatement (use : FormUse) (c : Call) :
    Writes (yieldStatement use c) fun b n => Emit.yieldStatement b n use c := by
  refine Writes.node ?_ _ _
  intro e
  simp [writes_mention use c.callee _]

theorem writes_contentStatement (m : Mustache) :
    Writes (contentStatement m) fun b _ => Draft.node "MustacheStatement" m.span
      ([Piece.text "__glintDSL__.emitContent("] ++ Emit.mustacheValue b false m ++ [Piece.text ");"]) := by
  refine Writes.node ?_ _ _
  intro e
  simp

theorem writes_mustacheStatement (m : Mustache) :
    Writes (mustacheStatement m) fun b n => Emit.mustacheStatement b n m := by
  intro e
  simp only [mustacheStatement, Emit.mustacheStatement, reading]
  cases e.bindings.formOf? m.call.callee with
  | none => exact writes_contentStatement m e
  | some use =>
    obtain ⟨name, form, imported⟩ := use
    by_cases hyield : form = .yield
    · subst hyield
      exact writes_yieldStatement _ m.call e
    · simp only [if_neg hyield, writes_contentStatement m e]
      cases form <;> first | rfl | exact absurd rfl hyield

/-! ## Opening tags -/

theorem writes_splattributes (a : Attribute) : Writes (splattributes a) fun _ n => Emit.splattributes n a := by
  intro e
  simp only [splattributes, Emit.splattributes]
  split <;> simp [(writes_text _).node _ _ _]

theorem writes_attributeObject (attributes : List Attribute) :
    Writes (attributeObject attributes) fun b n => Emit.attributeObject b n attributes := by
  have hproperty : ∀ a : Attribute,
      Writes (newline >=> write (Emit.attrProperty · false a.name a) >=> text ",") fun b n =>
        [Emit.line n] ++ Emit.attrProperty b false a.name a ++ [Piece.text ","] := fun a e => by simp
  intro e
  simp only [attributeObject, Emit.attributeObject]
  split
  · simp
  · simp [Writes.each hproperty attributes _]

theorem writes_openTag (t : Emit.OpenTag) : Writes (openTag t) fun b n => t.draft b n := by
  have hmodifier : ∀ m : Call,
      Writes (newline >=> write (Emit.modifier · m)) fun b n => Emit.line n :: Emit.modifier b m :=
    fun m e => by simp
  intro e
  simp [openTag, Emit.OpenTag.draft, Writes.each writes_splattributes t.splats _,
    writes_attributeObject t.attributes _, Writes.each hmodifier t.modifiers _]

/-! ## Bodies -/

theorem writes_blockContents (h : Writes body draft) (name : Draft) (params : List Name) :
    Writes (blockContents name params body) fun b n =>
      Emit.blockContents n name params (draft (b.enter params) (n + 1)) := by
  intro e
  simp [blockContents, Emit.blockContents, h _]

theorem writes_placeholderArm (h : Writes body draft) (params : List Name) :
    Writes (placeholderArm params body) fun b n =>
      Emit.placeholderArm n params (draft (b.enter params) (n + 1)) := by
  intro e
  simp only [placeholderArm, Emit.placeholderArm]
  split <;> simp [h _]

/-- The code of the other body of a condition, if there is one. -/
def elseDraft (n : Nat) (inverse : Option Draft) : Draft :=
  inverse.elim [] fun d => [Piece.text " else \x7b"] ++ d ++ [Emit.line n, .text "\x7d"]

theorem writes_elseBody (h : Writes body draft) :
    Writes (elseBody body) fun b n => elseDraft n (some (draft b (n + 1))) := by
  intro e
  simp [elseBody, elseDraft, h _]

theorem writes_ifBlock {inverse : Bindings → Nat → Option Draft} (h : Writes body draft)
    (h' : Writes other fun b n => elseDraft n (inverse b n)) (use : FormUse) (c : Call) (params : List Name) :
    Writes (ifBlock use c params body other) fun b n =>
      Emit.ifBlock b n use c (Draft.within params (draft (b.enter params) (n + 1))) (inverse b n) := by
  refine Writes.node ?_ _ _
  intro e
  simp only [then_eq, writes_mention use c.callee _, ok_bind, text_eq, write_eq, indent_eq, push_eq, h _, pop_put,
    dedent_put, newline_eq, h' _, put_put, bindings_put, bindings_indented, bindings_entered, depth_put,
    depth_indented, depth_entered]
  cases inverse e.bindings e.depth <;> simp [elseDraft]

theorem writes_placeholderBlock (h : Writes arms draft) (c : Call) :
    Writes (placeholderBlock c arms) fun b n => Emit.placeholderBlock b n c (draft b (n + 1)) := by
  refine Writes.node ?_ _ _
  intro e
  simp [h _]

theorem writes_componentBlock (h : Writes arms draft) (c : Call) :
    Writes (componentBlock c arms) fun b n => Emit.componentBlock b n c (draft b (n + 1)) := by
  refine Writes.node ?_ _ _
  intro e
  simp [h _]

/-! ## Elements -/

theorem writes_bareUse : Writes bareUse fun _ n => Emit.bareUse n := by
  intro e
  simp [bareUse, Emit.bareUse]

theorem writes_plainElement (h : Writes body draft) (tag : Name) (span : Span) (t : Emit.OpenTag) :
    Writes (plainElement tag span t body) fun b n => Emit.plainElement b n tag span t (draft b (n + 1)) := by
  refine Writes.node ?_ _ _
  intro e
  cases t.isUsed <;> simp [h _, writes_openTag t _, writes_bareUse _]

theorem writes_componentElement {inside : Bindings → Nat → Option Draft} {t : Emit.OpenTag}
    (h : Writes blocks fun b n => (inside b n).getD (if t.isUsed then [] else Emit.bareUse n)) (tag : Name)
    (span : Span) (attributes : List Attribute) (closeTag : Option Span) :
    Writes (componentElement tag span attributes t closeTag blocks) fun b n =>
      Emit.componentElement b n tag span attributes t closeTag (inside b (n + 1)) := by
  have hclose : ∀ close : Span,
      Writes (newline >=> write (Emit.tagPath · tag.text close) >=> text ";") fun b n =>
        [Emit.line n] ++ Emit.tagPath b tag.text close ++ [Piece.text ";"] := fun close e => by simp
  unfold componentElement Emit.componentElement
  refine Writes.node ?_ _ _
  intro e
  cases hinside : inside e.bindings (e.depth + 1) <;> cases closeTag <;>
    simp [h _, writes_openTag t _, Writes.each hclose _ _, hinside]

/-- The blocks of a component: none, named ones, or its children. -/
theorem writes_componentBlocks (h : Writes body draft) (h' : Writes other draft') (children : List Statement)
    (t : Emit.OpenTag) (params : List Name) :
    Writes
      (if children.isEmpty && params.isEmpty then if t.isUsed then .ok else bareUse
        else if Emit.hasNamedBlock children then other
        else blockContents [.text "\"default\""] params body)
      fun b n =>
        (if children.isEmpty && params.isEmpty then none
          else if Emit.hasNamedBlock children then some (draft' b n)
          else some (Emit.blockContents n [.text "\"default\""] params
            (draft (b.enter params) (n + 1)))).getD (if t.isUsed then [] else Emit.bareUse n) := by
  intro e
  split
  · cases t.isUsed <;> simp [writes_bareUse _]
  · split
    · simp [h' _]
    · simp [writes_blockContents h _ params _]

theorem writes_strayNamedBlock (h : Writes body draft) (span : Span) :
    Writes (strayNamedBlock span body) fun b n => Emit.strayNamedBlock n span (draft b (n + 1)) := by
  have hnode : Writes (node "ElementNode" span
      (text "\x7b" >=> indent >=> body >=> dedent >=> newline >=> text "\x7d")) fun b n =>
        Draft.node "ElementNode" span ([Piece.text "\x7b"] ++ draft b (n + 1) ++ [Emit.line n, .text "\x7d"]) := by
    refine Writes.node ?_ _ _
    intro e
    simp [h _]
  intro e
  simp [strayNamedBlock, Emit.strayNamedBlock, hnode _]

end

/-! ## Statements -/

mutual

/-- Statements step by step write their draft. -/
theorem writes_statements : ∀ xs : List Statement,
    Writes (statements xs) fun b n => Emit.statements b n xs
  | [] => by
    simp only [statements, Emit.statements]
    exact writes_nothing
  | s :: rest => by
    simp only [statements, Emit.statements]
    exact (writes_statement (Emit.nextSignificant rest) s).then (writes_statements rest)

theorem writes_statement (next : Option Span) : ∀ s : Statement,
    Writes (statement next s) fun b n => Emit.statement b n next s
  | .text t => by
    simp only [statement, Emit.statement]
    exact writes_write _
  | .comment _ => by
    simp only [statement, Emit.statement]
    exact writes_nothing
  | .mustacheComment c => by
    simp only [statement, Emit.statement]
    exact writes_write _
  | .mustache m => by
    simp only [statement, Emit.statement]
    exact writes_newline.then (writes_mustacheStatement m)
  | .block ⟨c, ⟨body, params, _, _⟩, inverse, _, _⟩ => by
    have hbody := writes_statements body
    have hcomponent := writes_componentBlock
      ((writes_blockContents hbody [.text "\"default\""] params).then (writes_elseArm inverse)) c
    have hplaceholder := writes_placeholderBlock
      ((writes_placeholderArm hbody params).then (writes_placeholderElse inverse)) c
    intro e
    simp only [statement, Emit.statement, then_eq, newline_eq, ok_bind, reading, bindings_put]
    cases e.bindings.formOf? c.callee with
    | none => simp [hcomponent _]
    | some use =>
      simp only
      split
      · have hif := writes_ifBlock hbody (writes_elseStatements inverse) use c params
        simp [hif _]
      · simp [hplaceholder _]
  | .element ⟨tag, attributes, modifiers, comments, params, children, selfClosing, closeTag, span⟩ => by
    have hchildren := writes_statements children
    intro e
    simp only [statement, Emit.statement, then_eq, newline_eq, ok_bind, reading, bindings_put]
    split
    · simp [writes_strayNamedBlock hchildren span _]
    · split
      · have hblocks := writes_componentBlocks hchildren (writes_namedBlocks children) children
          (.of (Element.parts ⟨tag, attributes, modifiers, comments, params, children, selfClosing, closeTag, span⟩)
            attributes modifiers true) params
        have hcomponent := writes_componentElement hblocks tag span attributes closeTag
        simp only [hcomponent _, put_put, bindings_put, depth_put, List.singleton_append]
      · simp [writes_plainElement hchildren tag span _ _]

theorem writes_elseArm : ∀ inverse : Option Arm, Writes (elseArm inverse) fun b n => Emit.elseArm b n inverse
  | none => by
    simp only [elseArm, Emit.elseArm]
    exact writes_nothing
  | some ⟨body, params, _, _⟩ => by
    simp only [elseArm, Emit.elseArm]
    exact writes_blockContents (writes_statements body) _ _

theorem writes_elseStatements : ∀ inverse : Option Arm,
    Writes (elseStatements inverse) fun b n => elseDraft n (Emit.elseBody b (n + 1) inverse)
  | none => by
    simp only [elseStatements, Emit.elseBody]
    exact writes_nothing
  | some ⟨body, _, _, _⟩ => by
    simp only [elseStatements, Emit.elseBody]
    have h := writes_elseBody (writes_statements body)
    exact h

theorem writes_placeholderElse : ∀ inverse : Option Arm,
    Writes (placeholderElse inverse) fun b n => Emit.placeholderElse b n inverse
  | none => by
    simp only [placeholderElse, Emit.placeholderElse]
    exact writes_nothing
  | some ⟨body, params, _, _⟩ => by
    simp only [placeholderElse, Emit.placeholderElse]
    have h := writes_placeholderArm (writes_statements body) params
    exact h

theorem writes_namedBlocks : ∀ xs : List Statement,
    Writes (namedBlocks xs) fun b n => Emit.namedBlocks b n xs
  | [] => by
    simp only [namedBlocks, Emit.namedBlocks]
    exact writes_nothing
  | .element ⟨tag, _, _, _, params, children, _, _, span⟩ :: rest => by
    simp only [namedBlocks, Emit.namedBlocks]
    refine Writes.then ?_ (writes_namedBlocks rest)
    split
    · exact (writes_blockContents (writes_statements children) _ _).node _ _
    · exact writes_issue _ _
  | .mustacheComment c :: rest => by
    simp only [namedBlocks, Emit.namedBlocks]
    exact (writes_write _).then (writes_namedBlocks rest)
  | .comment _ :: rest => by
    simp only [namedBlocks, Emit.namedBlocks]
    exact writes_namedBlocks rest
  | .text t :: rest => by
    simp only [namedBlocks, Emit.namedBlocks]
    refine Writes.then ?_ (writes_namedBlocks rest)
    split
    · exact writes_nothing
    · exact writes_issue _ _
  | .mustache m :: rest => by
    simp only [namedBlocks, Emit.namedBlocks]
    exact (writes_issue _ _).then (writes_namedBlocks rest)
  | .block ⟨_, _, _, _, span⟩ :: rest => by
    simp only [namedBlocks, Emit.namedBlocks]
    exact (writes_issue _ _).then (writes_namedBlocks rest)

end

end TypedTemplate.Emitter
