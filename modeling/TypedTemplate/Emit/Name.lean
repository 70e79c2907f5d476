/-
Names and literals in generated code: which names can stand there as they are, how the others are
written, and how texts become string and template literals.
-/
import TypedTemplate.Draft
import TypedTemplate.SpecialForm
import TypedTemplate.Text.Quoted

namespace TypedTemplate.Emit

open Template (Name Path PathHead Literal)

/-! ## Identifiers -/

def isIdentifierStart (c : Char) : Bool := c.isAlpha || c == '_' || c == '$'

def isIdentifierChar (c : Char) : Bool := c.isAlphanum || c == '_' || c == '$'

/-- Whether a name can be written as it is, as an identifier or a property. -/
def isIdentifier (name : String) : Bool :=
  match name.toList with
  | [] => false
  | c :: cs => isIdentifierStart c && cs.all isIdentifierChar

def reservedWords : List String :=
  ["await", "break", "case", "catch", "class", "const", "continue", "debugger", "default", "delete",
    "do", "else", "enum", "export", "extends", "false", "finally", "for", "function", "if",
    "implements", "import", "in", "instanceof", "interface", "let", "new", "null", "package",
    "private", "protected", "public", "return", "static", "super", "switch", "this", "throw", "true",
    "try", "typeof", "var", "void", "while", "with", "yield"]

/-- What is put before a block parameter that cannot be written as it is, and its other characters. -/
def localName (name : String) : String × String :=
  if reservedWords.contains name then ("__", name)
  else if isIdentifier name then ("", name)
  else ("__", String.ofList (name.toList.map fun c => if isIdentifierChar c then c else '_'))

/-- A block parameter. What is put before its name stands for nothing in the template. -/
def localIdentifier (name : String) (span : Span) : Draft :=
  match localName name with
  | ("", code) => Draft.name code name span
  | (lead, code) => .text lead :: Draft.name code name span

/-! ## Quoted names -/

/-- A name between double quotes. The quotes stand for nothing in the template, unless the name has
characters that are escaped. -/
def quotedName (name : String) (span : Span) : Draft :=
  if Text.quotedBody name = name.toList then
    [.text "\""] ++ Draft.name name name span ++ [.text "\""]
  else Draft.name (Text.quoted name) name span

/-- The key of a property. -/
def objectKey (key : String) (span : Span) : Draft :=
  if isIdentifier key then Draft.name key key span else quotedName key span

/-- The property of a value, which may be missing if `optional`. -/
def property (optional : Bool) (name : Name) : Draft :=
  if isIdentifier name.text then
    .text (if optional then "?." else ".") :: Draft.name name.text name.text name.span
  else
    [.text (if optional then "?.[" else "[")] ++ quotedName name.text name.span ++ [.text "]"]

/-- A free name: a block parameter, a global, or a name of the script around. -/
def reference (b : Bindings) (name : Name) : Draft :=
  if !isIdentifier name.text || (!b.scope.binds name.text && b.isGlobal name.text) then
    [.text "__glintDSL__.Globals["] ++ quotedName name.text name.span ++ [.text "]"]
  else localIdentifier name.text name.span

/-! ## Paths -/

/-- A path by its head and its other segments. Properties of `this` and of the arguments exist, those
further on may be missing. -/
def pathCode (b : Bindings) : PathHead → List Name → Draft
  | .this span, [] => .text "__glintRef__." :: Draft.name "this" "this" span
  | .this span, first :: tail =>
    [.text "__glintRef__."] ++ Draft.name "this" "this" span ++ property false first ++
      tail.flatMap (property true)
  | .arg name, tail =>
    [.text "__glintRef__.args"] ++ property false name ++ tail.flatMap (property true)
  | .var name, tail => reference b name ++ tail.flatMap (property true)

def path (b : Bindings) (p : Path) : Draft :=
  Draft.node "PathExpression" p.span (pathCode b p.head p.tail)

/-- The segments of a tag that starts at `start`, which points divide. -/
def tagSegments (start : Nat) : List (List Char) → List Name
  | [] => []
  | segment :: rest =>
    let stop := start + Text.byteLength segment
    ⟨String.ofList segment, ⟨start, stop⟩⟩ :: tagSegments (stop + 1) rest

/-- The head of a tag as the head of a path. -/
def tagHead (name : Name) : PathHead :=
  match name.text.toList with
  | '@' :: rest => .arg ⟨String.ofList rest, ⟨name.span.start + 1, name.span.stop⟩⟩
  | _ => if name.text = "this" then .this name.span else .var name

/-- A tag as a path. -/
def tagPath (b : Bindings) (tag : String) (span : Span) : Draft :=
  Draft.node "PathExpression" span <|
    match tagSegments span.start (tag.toList.splitOn '.') with
    | [] => []
    | head :: tail => pathCode b (tagHead head) tail

/-! ## Literals -/

def literalCode : Literal → String
  | .string value => Text.quoted value
  | .number value => value.code
  | .boolean value => if value then "true" else "false"
  | .null => "null"
  | .undefined => "undefined"

/-- Text between backticks: backslashes are escaped first, then backticks, then each opening of an expression. -/
def templateLiteralText (cs : List Char) : List Char :=
  let slashed := Text.replaceAll ['\\'] ['\\', '\\'] cs
  let ticked := Text.replaceAll ['`'] ['\\', '`'] slashed
  Text.replaceAll ['$', '{'] ['\\', '$', '{'] ticked

end TypedTemplate.Emit
