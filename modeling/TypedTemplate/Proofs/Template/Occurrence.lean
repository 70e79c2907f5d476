/-
Occurrences of paths. Every path of a template, and every tag that calls a component, stands somewhere: in
the bodies that bind names around it, and in a part of the template that has code or in one that has none.
The callee of a special form is no occurrence, it stands for a construct and not for a value.

Names are bound in three ways. What a component passes to its block is declared where the code of the block
starts. The parameters of a condition are in scope in its body, but nothing declares them. Those of the
other body of a condition and of a component with named blocks are not even in scope.
-/
import TypedTemplate.Emit.Statement

namespace TypedTemplate

open Template Emit

/-- What comes of the parameters of a body. -/
inductive Binding where
  /-- The code of the body starts with a declaration of them. -/
  | declared
  /-- They are in scope in the body. -/
  | assumed
  | ignored
  deriving Repr, DecidableEq

/-- The parameters of a body. -/
structure Binder where
  binding : Binding
  params : List Name
  deriving Repr, DecidableEq

def Binder.names (d : Binder) : List String := d.params.map (·.text)

/-- A place in a template: the bodies around it, the innermost first, and whether what stands there is
written. -/
structure Place where
  forms : Table SpecialForm
  globals : Option (List String)
  binders : List Binder := []
  written : Bool := true

/-- How names are understood at a place. -/
def Place.bindings (p : Place) : Bindings where
  forms := p.forms
  globals := p.globals
  scope := ⟨(p.binders.filter fun d => d.binding ≠ .ignored).map (·.names)⟩

/-- In a body with parameters. -/
def Place.enter (p : Place) (binding : Binding) (params : List Name) : Place :=
  { p with binders := ⟨binding, params⟩ :: p.binders }

theorem Place.binds_iff {p : Place} {x : String} :
    p.bindings.scope.binds x = true ↔ ∃ d ∈ p.binders, d.binding ≠ .ignored ∧ x ∈ d.names := by
  simp [Place.bindings, Scope.binds]

structure Occurrence where
  place : Place
  head : PathHead
  tail : List Name
  span : Span

namespace Occurrence

/-- The code of an occurrence. -/
def draft (u : Occurrence) : Draft :=
  Draft.node "PathExpression" u.span (pathCode u.place.bindings u.head u.tail)

/-- An occurrence in a part of the template that no code is written for. -/
def dropped (u : Occurrence) : Occurrence := { u with place := { u.place with written := false } }

/-! ## Calls -/

mutual

def ofExpr (p : Place) : Expr → List Occurrence
  | .path q => [⟨p, q.head, q.tail, q.span⟩]
  | .literal _ _ => []
  | .call ⟨callee, params, ⟨pairs, _⟩, _⟩ =>
    match p.bindings.formOf? callee with
    | none => ofExpr p callee ++ (ofExprs p params).flatten ++ (ofPairs p pairs).flatten
    | some use =>
      if use.form = .ifElse ∨ use.form = .ifNot then
        -- a condition and two values; what else is passed is not written
        ((ofExprs p params).take 3).flatten ++
          (((ofExprs p params).drop 3).flatten ++ (ofPairs p pairs).flatten).map dropped
      else (ofExprs p params).flatten ++ (ofPairs p pairs).flatten

/-- The occurrences in each of several expressions. -/
def ofExprs (p : Place) : List Expr → List (List Occurrence)
  | [] => []
  | e :: es => ofExpr p e :: ofExprs p es

def ofPairs (p : Place) : List Pair → List (List Occurrence)
  | [] => []
  | ⟨_, value, _⟩ :: ps => ofExpr p value :: ofPairs p ps

end

/-- The arguments of a call. -/
def ofArguments (p : Place) (c : Call) : List Occurrence :=
  (ofExprs p c.params).flatten ++ (ofPairs p c.hash.pairs).flatten

/-- A call that has the place of a statement: a block or a modifier. -/
def ofCall (p : Place) (c : Call) : List Occurrence :=
  (if (p.bindings.formOf? c.callee).isNone then ofExpr p c.callee else []) ++ ofArguments p c

/-- A mustache as a value, which is written like a call in parentheses. -/
def ofMustache (p : Place) (m : Mustache) : List Occurrence := ofExpr p (.call m.call)

/-- A mustache between other content. Of the named arguments of a yield none is a value. -/
def ofContent (p : Place) (m : Mustache) : List Occurrence :=
  match p.bindings.formOf? m.call.callee with
  | some ⟨_, .yield, _⟩ =>
    (ofExprs p m.call.params).flatten ++ (ofPairs p m.call.hash.pairs).flatten.map dropped
  | _ => ofMustache p m

/-! ## Tags -/

def ofPart (p : Place) : ConcatPart → List Occurrence
  | .text _ => []
  | .mustache m => ofMustache p m

def ofValue (p : Place) : AttrValue → List Occurrence
  | .text _ => []
  | .mustache m => ofMustache p m
  | .concat parts _ => parts.flatMap (ofPart p)

/-- A tag at `span` that calls a component. -/
def ofTag (p : Place) (tag : String) (span : Span) : List Occurrence :=
  match tagSegments span.start (tag.toList.splitOn '.') with
  | [] => []
  | head :: tail => [⟨p, tagHead head, tail, span⟩]

/-- What an opening tag does to its element. -/
def ofOpening (p : Place) (attributes : List Attribute) (modifiers : List Call) : List Occurrence :=
  (attributes.flatMap fun a => ofValue p a.value) ++ modifiers.flatMap (ofCall p)

/-! ## Statements -/

/-- What comes of the parameters of the two arms of a block, by the form that its callee stands for. -/
def armBindings : Option FormUse → Binding × Binding
  | none => (.declared, .declared)
  | some use =>
    if use.form = .ifElse ∨ use.form = .ifNot then (.assumed, .ignored) else (.declared, .declared)

mutual

def ofStatements (p : Place) : List Statement → List Occurrence
  | [] => []
  | s :: ss => ofStatement p s ++ ofStatements p ss

def ofStatement (p : Place) : Statement → List Occurrence
  | .text _ => []
  | .comment _ => []
  | .mustacheComment _ => []
  | .mustache m => ofContent p m
  | .block ⟨c, ⟨body, params, _, _⟩, inverse, _, _⟩ =>
    let bindings := armBindings (p.bindings.formOf? c.callee)
    ofCall p c ++ ofStatements (p.enter bindings.1 params) body ++ ofInverse p bindings.2 inverse
  | .element ⟨tag, attributes, modifiers, _, params, children, _, close, _⟩ =>
    if tag.text.toList.head? == some ':' then
      -- of a named block only its body is written
      (ofOpening p attributes modifiers).map dropped ++ ofStatements (p.enter .declared params) children
    else if isComponent p.bindings tag.text then
      ofTag p tag.text tag.span ++ ofOpening p attributes modifiers ++
        ofStatements (p.enter (if hasNamedBlock children then .ignored else .declared) params) children ++
        close.toList.flatMap (ofTag p tag.text)
    else ofOpening p attributes modifiers ++ ofStatements p children

/-- The other arm of a block. -/
def ofInverse (p : Place) (binding : Binding) : Option Arm → List Occurrence
  | none => []
  | some ⟨body, params, _, _⟩ => ofStatements (p.enter binding params) body

end

end Occurrence

/-- The occurrences in a template. -/
def Template.occurrences (forms : Table SpecialForm) (globals : Option (List String)) (t : Template) :
    List Occurrence :=
  Occurrence.ofStatements { forms, globals } t.body

end TypedTemplate
