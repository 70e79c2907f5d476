/-
Special forms: callees that stand for a control construct or an operator of the generated code.
-/
import TypedTemplate.Scope
import TypedTemplate.Table
import TypedTemplate.Template.Basic

namespace TypedTemplate

inductive SpecialForm where
  | ifElse
  | ifNot
  | yield
  | object
  | array
  | bindInvokable
  | strictEqual
  | strictNotEqual
  | conjunction
  | disjunction
  | negation
  deriving Repr, DecidableEq, Inhabited

namespace SpecialForm

/-- The name of a form in a configuration. -/
def name : SpecialForm → String
  | .ifElse => "if"
  | .ifNot => "if-not"
  | .yield => "yield"
  | .object => "object-literal"
  | .array => "array-literal"
  | .bindInvokable => "bind-invokable"
  | .strictEqual => "==="
  | .strictNotEqual => "!=="
  | .conjunction => "&&"
  | .disjunction => "||"
  | .negation => "!"

def all : List SpecialForm :=
  [.ifElse, .ifNot, .yield, .object, .array, .bindInvokable, .strictEqual, .strictNotEqual,
    .conjunction, .disjunction, .negation]

/-- The form of that name. -/
def ofName? (name : String) : Option SpecialForm := all.find? (·.name == name)

end SpecialForm

/-- How free names of a template are understood: which of them are special forms, which are globals
(without a list all are), and which the blocks around bind. -/
structure Bindings where
  forms : Table SpecialForm
  globals : Option (List String)
  scope : Scope := {}

/-- A callee that stands for a special form. `imported` says that it is no global, so that generated
code has to mention it lest its import count as unused. -/
structure FormUse where
  name : String
  form : SpecialForm
  imported : Bool
  deriving Repr, DecidableEq, Inhabited

namespace Bindings

/-- Inside a block that binds `names`. -/
def enter (b : Bindings) (names : List Template.Name) : Bindings :=
  { b with scope := b.scope.enter (names.map (·.text)) }

def isGlobal (b : Bindings) (name : String) : Bool :=
  match b.globals with
  | some names => names.contains name
  | none => true

/-- The special form a callee stands for: it has to be a single name that no block around binds. -/
def formOf? (b : Bindings) (callee : Template.Expr) : Option FormUse := do
  let name ← (← callee.path?).simpleVar?
  let form ← b.forms.get? name
  if b.scope.binds name then none
  else some ⟨name, form, !b.isGlobal name⟩

end Bindings

end TypedTemplate
