/-
The calls of a template, each with its position and with the frames of names around it, and the rules that
special forms have for them.

A frame is made by the body of a block, by the children of a component without named blocks, and by a named block
of a component. No frame is made by the other body of a condition, by an element that is no component, by a
component for the named blocks in it, or by a named block outside a component.
-/
import TypedTemplate.Emit.Statement

namespace TypedTemplate

open Template Emit

/-- Where a call stands. -/
inductive CallPosition where
  | block
  /-- A mustache between other content. -/
  | content
  /-- A call in parentheses, or a mustache in an attribute. -/
  | value
  | modifier
  deriving Repr, DecidableEq

/-- A call of a template. -/
structure CallSite where
  call : Call
  position : CallPosition
  bindings : Bindings

namespace CallSite

/-! ## Calls -/

mutual

/-- The calls in an expression. -/
def ofExpr (b : Bindings) : Expr → List CallSite
  | .path _ => []
  | .literal _ _ => []
  | .call ⟨callee, params, ⟨pairs, hashSpan⟩, span⟩ =>
    ⟨⟨callee, params, ⟨pairs, hashSpan⟩, span⟩, .value, b⟩ ::
      (ofExpr b callee ++ (ofExprs b params).flatten ++ (ofPairs b pairs).flatten)

/-- The calls in each of several expressions. -/
def ofExprs (b : Bindings) : List Expr → List (List CallSite)
  | [] => []
  | e :: es => ofExpr b e :: ofExprs b es

def ofPairs (b : Bindings) : List Pair → List (List CallSite)
  | [] => []
  | ⟨_, value, _⟩ :: ps => ofExpr b value :: ofPairs b ps

end

/-- The calls in the callee and the arguments of a call. -/
def inside (b : Bindings) (c : Call) : List CallSite :=
  ofExpr b c.callee ++ (ofExprs b c.params).flatten ++ (ofPairs b c.hash.pairs).flatten

/-- A call and the calls in it. -/
def ofCall (b : Bindings) (position : CallPosition) (c : Call) : List CallSite :=
  ⟨c, position, b⟩ :: inside b c

/-! ## Tags -/

def ofPart (b : Bindings) : ConcatPart → List CallSite
  | .text _ => []
  | .mustache m => ofCall b .value m.call

def ofValue (b : Bindings) : AttrValue → List CallSite
  | .text _ => []
  | .mustache m => ofCall b .value m.call
  | .concat parts _ => parts.flatMap (ofPart b)

/-- The calls in an opening tag. -/
def ofOpening (b : Bindings) (attributes : List Attribute) (modifiers : List Call) : List CallSite :=
  attributes.flatMap (fun a => ofValue b a.value) ++ modifiers.flatMap (ofCall b .modifier)

/-! ## Statements -/

/-- The bindings in the other arm of a block by what the callee stands for. -/
def elseBindings (b : Bindings) (callee : Expr) (params : List Name) : Bindings :=
  if (b.formOf? callee).any (fun use => use.form = .ifElse ∨ use.form = .ifNot) then b else b.enter params

theorem elseBindings_condition {b : Bindings} {callee : Expr} {use : FormUse} (h : b.formOf? callee = some use)
    (hcondition : use.form = .ifElse ∨ use.form = .ifNot) (params : List Name) : elseBindings b callee params = b := by
  rw [elseBindings, h, if_pos (by simpa using hcondition)]

theorem elseBindings_form {b : Bindings} {callee : Expr} {use : FormUse} (h : b.formOf? callee = some use)
    (hcondition : ¬ (use.form = .ifElse ∨ use.form = .ifNot)) (params : List Name) :
    elseBindings b callee params = b.enter params := by
  rw [elseBindings, h, if_neg (by simpa using hcondition)]

theorem elseBindings_none {b : Bindings} {callee : Expr} (h : b.formOf? callee = none) (params : List Name) :
    elseBindings b callee params = b.enter params := by
  rw [elseBindings, h, if_neg (by simp)]

mutual

/-- The calls in statements. -/
def ofStatements (b : Bindings) : List Statement → List CallSite
  | [] => []
  | s :: ss => ofStatement b s ++ ofStatements b ss

def ofStatement (b : Bindings) : Statement → List CallSite
  | .text _ => []
  | .comment _ => []
  | .mustacheComment _ => []
  | .mustache m => ofCall b .content m.call
  | .block ⟨c, ⟨body, params, _, _⟩, inverse, _, _⟩ =>
    ofCall b .block c ++ ofStatements (b.enter params) body ++ ofInverse b c.callee inverse
  | .element ⟨tag, attributes, modifiers, _, params, children, _, _, _⟩ =>
    ofOpening b attributes modifiers ++
      if tag.text.toList.head? == some ':' then ofStatements b children
      else if isComponent b tag.text then
        if hasNamedBlock children then ofNamedBlocks b children else ofStatements (b.enter params) children
      else ofStatements b children

/-- The calls in the other arm of a block. -/
def ofInverse (b : Bindings) (callee : Expr) : Option Arm → List CallSite
  | none => []
  | some ⟨body, params, _, _⟩ => ofStatements (elseBindings b callee params) body

/-- The calls in the children of a component that has named blocks. -/
def ofNamedBlocks (b : Bindings) : List Statement → List CallSite
  | [] => []
  | .element ⟨tag, attributes, modifiers, comments, params, children, selfClosing, close, span⟩ :: rest =>
    (if tag.text.toList.head? == some ':' then
      ofOpening b attributes modifiers ++ ofStatements (b.enter params) children
     else ofStatement b (.element ⟨tag, attributes, modifiers, comments, params, children, selfClosing, close, span⟩)) ++
      ofNamedBlocks b rest
  | s :: rest => ofStatement b s ++ ofNamedBlocks b rest

end

end CallSite

/-- The calls of a template. -/
def Template.callSites (forms : Table SpecialForm) (globals : Option (List String)) (t : Template) :
    List CallSite :=
  CallSite.ofStatements { forms, globals } t.body

/-! ## Rules -/

/-- What is wrong with a form in the place of a value that is given so many positional arguments, and named ones
or none. -/
inductive SpecialForm.Misused (positional : Nat) (named : Bool) : SpecialForm → FormFault → Prop
  | choice {form : SpecialForm} (hform : form = .ifElse ∨ form = .ifNot) (h : positional < 2) :
    Misused positional named form .fewerThanTwo
  | yield : Misused positional named .yield .notTopLevel
  | object (h : 0 < positional) : Misused positional named .object .positionalArgument
  | named {form : SpecialForm} (hform : form ∈ [.array, .strictEqual, .strictNotEqual, .conjunction, .disjunction,
      .negation]) (h : named = true) : Misused positional named form .namedArgument
  | unbound (h : positional = 0) : Misused positional named .bindInvokable .nothingToBind
  | mixed (h : 1 < positional) (h' : named = true) : Misused positional named .bindInvokable .mixedBinding
  | equality {form : SpecialForm} (hform : form = .strictEqual ∨ form = .strictNotEqual) (h : positional ≠ 2) :
    Misused positional named form .notExactlyTwo
  | connective {form : SpecialForm} (hform : form = .conjunction ∨ form = .disjunction) (h : positional < 2) :
    Misused positional named form .fewerThanTwo
  | negation (h : positional ≠ 1) : Misused positional named .negation .notExactlyOne

/-- The rules that a call of a form breaks by its position, and the span where that is shown. -/
inductive SpecialForm.Breaks (form : SpecialForm) (c : Call) : CallPosition → FormFault → Span → Prop
  /-- A condition takes one positional argument and no other. -/
  | condition (hform : form = .ifElse ∨ form = .ifNot) (h : ¬ (c.params.length = 1 ∧ c.hash.pairs = [])) :
    Breaks form c .block .notOneCondition c.span
  | block (hform : ¬ (form = .ifElse ∨ form = .ifNot)) : Breaks form c .block .asBlock c.span
  | modifier : Breaks form c .modifier .asModifier c.span
  /-- The block that a yield goes to is named by a text. -/
  | target (hform : form = .yield) {pair : Pair} (hpair : c.hash.pairs.find? (·.key.text == "to") = some pair)
    (h : ∀ name span, pair.value ≠ .literal (.string name) span) :
    Breaks form c .content .computedBlockName pair.value.span
  | content (hform : form ≠ .yield) {fault : FormFault}
    (h : form.Misused c.params.length (!c.hash.pairs.isEmpty) fault) : Breaks form c .content fault c.span
  | value {fault : FormFault} (h : form.Misused c.params.length (!c.hash.pairs.isEmpty) fault) :
    Breaks form c .value fault c.span

/-- A call is the cause of an issue: its callee is a single name that has a form and that no frame around binds,
and it breaks the rule of the form that the issue is about, where the issue is shown. -/
def CallSite.Causes (site : CallSite) (issue : IssueCause × Span) : Prop :=
  ∃ (p : Path) (name : Name) (form : SpecialForm) (fault : FormFault),
    site.call.callee = .path p ∧ p.head = .var name ∧ p.tail = [] ∧
    site.bindings.forms.get? name.text = some form ∧
    (∀ frame ∈ site.bindings.scope.frames, name.text ∉ frame) ∧
    issue.1 = .form name.text fault ∧ form.Breaks site.call site.position fault issue.2

/-- A callee that stands for a form is a single name that has the form and that no frame binds. -/
theorem Bindings.formOf?_eq_some {b : Bindings} {callee : Expr} {use : FormUse} (h : b.formOf? callee = some use) :
    ∃ (p : Path) (name : Name), callee = .path p ∧ p.head = .var name ∧ p.tail = [] ∧ use.name = name.text ∧
      b.forms.get? name.text = some use.form ∧ ∀ frame ∈ b.scope.frames, name.text ∉ frame := by
  simp only [Bindings.formOf?, Option.bind_eq_bind, Option.bind_eq_some_iff] at h
  obtain ⟨p, hpath, text, hvar, form, hform, h⟩ := h
  split at h
  · cases h
  rename_i hfree
  cases h
  have hcallee : callee = .path p := by
    cases callee <;> simp_all [Expr.path?]
  obtain ⟨head, tail, written, span⟩ := p
  cases head with
  | var name =>
    cases tail with
    | nil =>
      cases hvar
      exact ⟨_, name, hcallee, rfl, rfl, rfl, hform, by simpa [Scope.binds] using hfree⟩
    | cons n ns => cases hvar
  | this span => cases hvar
  | arg name => cases hvar

/-- A call of a form that breaks a rule is the cause of an issue. -/
theorem CallSite.causes_of_breaks {b : Bindings} {c : Call} {use : FormUse} {position : CallPosition}
    {fault : FormFault} {span : Span} (h : b.formOf? c.callee = some use)
    (hbreaks : use.form.Breaks c position fault span) :
    (CallSite.mk c position b).Causes (.form use.name fault, span) := by
  obtain ⟨p, name, hcallee, hhead, htail, hname, hform, hfree⟩ := Bindings.formOf?_eq_some h
  exact ⟨p, name, use.form, fault, hcallee, hhead, htail, hform, hfree, by rw [hname], hbreaks⟩

end TypedTemplate
