/-
Calls in generated code: arguments, resolution of the callee, and the special forms that expand to a
construct of the target language instead.
-/
import TypedTemplate.Emit.Name

namespace TypedTemplate.Emit

open Template (Expr Call Hash Pair Mustache)

/-- A call with its parts in generated code. `pairs` has a draft for each named argument. -/
structure CallDraft where
  callee : Draft
  params : List Draft
  pairs : List Draft
  hashSpan : Span
  span : Span

namespace CallDraft

/-- The named arguments as an object. -/
def named (c : CallDraft) : Draft :=
  Draft.node "Hash" c.hashSpan <|
    [.text "\x7b "] ++ c.pairs.flatMap (· ++ [.text ", "]) ++
      [.text "...__glintDSL__.NamedArgsMarker \x7d"]

/-- All arguments, the named ones last. -/
def args (c : CallDraft) : Draft :=
  Draft.separated ", " (c.params ++ if c.pairs.isEmpty then [] else [c.named])

def hasArguments (c : CallDraft) : Bool := !c.params.isEmpty || !c.pairs.isEmpty

/-- The callee resolved and called. -/
def resolve (c : CallDraft) : Draft :=
  [.text "__glintDSL__.resolve("] ++ c.callee ++ [.text ")("] ++ c.args ++ [.text ")"]

/-! ## Special forms -/

/-- The value of a call that breaks a rule of its form. -/
def faulty (c : CallDraft) (name : String) (fault : FormFault) : Draft :=
  [.issue (.form name fault) c.span, .text "undefined"]

/-- An object with the named arguments as its properties. -/
def objectLiteral (c : CallDraft) : Draft :=
  Draft.node "Hash" c.hashSpan <|
    [.text "\x7b "] ++ Draft.separated ", " c.pairs ++ [.text " \x7d"]

/-- A choice between two values. -/
def choice (c : CallDraft) (use : FormUse) : Draft :=
  match c.params with
  | condition :: yes :: rest =>
    [.text (if use.form = .ifNot then "(!(" else "((")] ++ condition ++ [.text ") ? ("] ++ yes ++
      [.text ") : ("] ++ rest.headD [.text "undefined"] ++ [.text "))"]
  | _ => c.faulty use.name .fewerThanTwo

/-- Positional arguments with an operator between them. -/
def operation (c : CallDraft) (operator : String) : Draft :=
  [.text "("] ++ Draft.separated operator c.params ++ [.text ")"]

/-- A form that takes positional arguments only, if there are no named ones. -/
def positional (c : CallDraft) (use : FormUse) (otherwise : Draft) : Draft :=
  if c.pairs.isEmpty then otherwise else c.faulty use.name .namedArgument

/-- What a special form stands for as a value. -/
def formValue (c : CallDraft) (use : FormUse) : Draft :=
  match use.form with
  | .ifElse | .ifNot => c.choice use
  | .yield => c.faulty use.name .notTopLevel
  | .object =>
    if !c.params.isEmpty then c.faulty use.name .positionalArgument
    else if c.pairs.isEmpty then [.text "\x7b\x7d"]
    else [.text "("] ++ c.objectLiteral ++ [.text ")"]
  | .array =>
    c.positional use ([.text "["] ++ Draft.separated ", " c.params ++ [.text "]"])
  | .bindInvokable =>
    if c.params.isEmpty then c.faulty use.name .nothingToBind
    else if 1 < c.params.length ∧ !c.pairs.isEmpty then c.faulty use.name .mixedBinding
    else c.resolve
  | .strictEqual | .strictNotEqual =>
    c.positional use <|
      if c.params.length ≠ 2 then c.faulty use.name .notExactlyTwo
      else c.operation (if use.form = .strictEqual then " === " else " !== ")
  | .conjunction | .disjunction =>
    c.positional use <|
      if c.params.length < 2 then c.faulty use.name .fewerThanTwo
      else c.operation (if use.form = .conjunction then " && " else " || ")
  | .negation =>
    c.positional use <|
      match c.params with
      | [value] => [.text "!("] ++ value ++ [.text ")"]
      | _ => c.faulty use.name .notExactlyOne

/-- A special form in the place of a value; a callee that was imported is mentioned first. -/
def formExpression (c : CallDraft) (use : FormUse) : Draft :=
  if use.imported then
    [.text "(__glintDSL__.noop("] ++ c.callee ++ [.text "), "] ++ c.formValue use ++ [.text ")"]
  else c.formValue use

/-- The value of a call. -/
def value (c : CallDraft) : Option FormUse → Draft
  | some use => c.formExpression use
  | none => c.resolve

end CallDraft

/-! ## Expressions -/

mutual

def expr (b : Bindings) : Expr → Draft
  | .path p => path b p
  | .literal value span => Draft.node "Literal" span [.text (literalCode value)]
  | .call ⟨callee, params, ⟨pairs, hashSpan⟩, span⟩ =>
    let c : CallDraft := ⟨expr b callee, exprs b params, pairDrafts b pairs, hashSpan, span⟩
    Draft.node "SubExpression" span (c.value (b.formOf? callee))

def exprs (b : Bindings) : List Expr → List Draft
  | [] => []
  | e :: es => expr b e :: exprs b es

def pairDrafts (b : Bindings) : List Pair → List Draft
  | [] => []
  | ⟨key, value, span⟩ :: ps =>
    Draft.node "HashPair" span (objectKey key.text key.span ++ [.text ": "] ++ expr b value) ::
      pairDrafts b ps

end

/-- A call with its parts in generated code. -/
def call (b : Bindings) (c : Call) : CallDraft :=
  ⟨expr b c.callee, exprs b c.params, pairDrafts b c.hash.pairs, c.hash.span, c.span⟩

/-- The value of a mustache. A path without arguments stands for itself where it is an argument, and
may be a helper elsewhere. -/
def mustacheValue (b : Bindings) (asArgument : Bool) (m : Mustache) : Draft :=
  match b.formOf? m.call.callee with
  | some use => (call b m.call).formExpression use
  | none =>
    if m.call.hasArguments then (call b m.call).resolve
    else if asArgument || m.call.callee.path?.isNone then expr b m.call.callee
    else [.text "__glintDSL__.resolveOrReturn("] ++ expr b m.call.callee ++ [.text ")()"]

end TypedTemplate.Emit
