/-
The tree of a template. Every node carries the span of the text it was read from, and so does every
name that generated code can point back to: segments of paths, tags, attribute names, keys of named
arguments and block parameters.
-/
import TypedTemplate.Decimal.Double
import TypedTemplate.Span
import TypedTemplate.Text.Blank

namespace TypedTemplate.Template

/-- A name and where it stands. -/
structure Name where
  text : String
  span : Span
  deriving Repr, DecidableEq, Inhabited

/-! ## Expressions -/

inductive PathHead where
  /-- `this`. -/
  | this (span : Span)
  /-- `@name`; the name is without the `@`. -/
  | arg (name : Name)
  /-- A free or block-bound variable. -/
  | var (name : Name)
  deriving Repr, DecidableEq, Inhabited

def PathHead.span : PathHead → Span
  | .this span => span
  | .arg name => name.span
  | .var name => name.span

/-- A dotted path; `written` is its text in the template. -/
structure Path where
  head : PathHead
  tail : List Name
  written : String
  span : Span
  deriving Repr, DecidableEq, Inhabited

/-- The variable that a path consists of. -/
def Path.simpleVar? (p : Path) : Option String :=
  match p.head, p.tail with
  | .var name, [] => some name.text
  | _, _ => none

inductive Literal where
  | string (value : String)
  | number (value : Decimal.Double)
  | boolean (value : Bool)
  | null
  | undefined
  deriving Repr, DecidableEq, Inhabited

mutual

inductive Expr where
  | path (path : Path)
  | literal (value : Literal) (span : Span)
  /-- A call in parentheses. -/
  | call (call : Call)
  deriving Repr

/-- A callee with positional and named arguments. -/
structure Call where
  callee : Expr
  params : List Expr
  hash : Hash
  span : Span
  deriving Repr

/-- Named arguments in the order they are written. -/
structure Hash where
  pairs : List Pair
  span : Span
  deriving Repr

structure Pair where
  key : Name
  value : Expr
  span : Span
  deriving Repr

end

def Expr.span : Expr → Span
  | .path p => p.span
  | .literal _ span => span
  | .call c => c.span

def Expr.path? : Expr → Option Path
  | .path p => some p
  | _ => none

def Hash.isEmpty (h : Hash) : Bool := h.pairs.isEmpty

/-- Whether a call passes any argument. -/
def Call.hasArguments (c : Call) : Bool := !c.params.isEmpty || !c.hash.isEmpty

/-! ## Statements -/

/-- Characters of the template, taken as they are. -/
structure TextRun where
  chars : String
  span : Span
  deriving Repr, DecidableEq, Inhabited

def TextRun.isBlank (t : TextRun) : Bool := Text.allBlank t.chars

/-- A comment; `value` is what stands between its delimiters. -/
structure Comment where
  value : String
  span : Span
  deriving Repr, DecidableEq, Inhabited

/-- A call in curly braces, `trusting` if there are three of them. -/
structure Mustache where
  call : Call
  trusting : Bool
  deriving Repr

def Mustache.span (m : Mustache) : Span := m.call.span

inductive ConcatPart where
  | text (t : TextRun)
  | mustache (m : Mustache)
  deriving Repr

inductive AttrValue where
  | text (t : TextRun)
  | mustache (m : Mustache)
  /-- A quoted value with mustaches in it. -/
  | concat (parts : List ConcatPart) (span : Span)
  deriving Repr

structure Attribute where
  name : Name
  value : AttrValue
  span : Span
  deriving Repr

namespace Attribute

/-- Whether the attribute is an argument of a component. -/
def isArgument (a : Attribute) : Bool := a.name.text.toList.head? == some '@'

def isSplattributes (a : Attribute) : Bool := a.name.text == "...attributes"

/-- Whether the attribute is written without a value. -/
def isValueless (a : Attribute) : Bool :=
  match a.value with
  | .text t => t.span.isEmpty
  | _ => false

end Attribute

mutual

inductive Statement where
  | text (t : TextRun)
  /-- A comment of the markup. -/
  | comment (c : Comment)
  /-- A comment in curly braces. -/
  | mustacheComment (c : Comment)
  | mustache (m : Mustache)
  | block (b : Block)
  | element (e : Element)
  deriving Repr

/-- A block with its main arm and, after an `else`, its other arm. `closeSpan` is the name in the
closing braces; an `else` that opens a block of its own has none. -/
structure Block where
  call : Call
  program : Arm
  inverse : Option Arm
  closeSpan : Option Span
  span : Span
  deriving Repr

/-- One arm of a block, `chained` if the `else` before it opens a block of its own. -/
structure Arm where
  body : List Statement
  params : List Name
  chained : Bool
  span : Span
  deriving Repr

/-- An element, a component or a named block. -/
structure Element where
  tag : Name
  attributes : List Attribute
  modifiers : List Call
  comments : List Comment
  params : List Name
  children : List Statement
  selfClosing : Bool
  closeTagSpan : Option Span
  span : Span
  deriving Repr

end

/-- Whether an element is a named block of the component around it. -/
def Element.isNamedBlock (e : Element) : Bool := e.tag.text.toList.head? == some ':'

/-- What an opening tag can hold. -/
inductive TagPart where
  | attr (a : Attribute)
  | modifier (m : Call)
  | comment (c : Comment)
  deriving Repr

def TagPart.span : TagPart → Span
  | .attr a => a.span
  | .modifier m => m.span
  | .comment c => c.span

/-- What an opening tag holds, in the order of the text. -/
def Element.parts (e : Element) : List TagPart :=
  (e.attributes.map TagPart.attr ++ e.modifiers.map TagPart.modifier ++
    e.comments.map TagPart.comment).mergeSort fun a b => a.span.start ≤ b.span.start

end Template

/-- A template: what it holds, and its whole extent. -/
structure Template where
  body : List Template.Statement
  span : Span
  deriving Repr

end TypedTemplate
