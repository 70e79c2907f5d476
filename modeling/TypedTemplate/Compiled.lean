/-
Compiled templates. A template becomes one expression of typed code that mentions every value the
template uses, with a mapping from each stretch of that code to the span it stands for.
-/
import TypedTemplate.Emit.Statement
import TypedTemplate.Template.Reader.Statement

namespace TypedTemplate

/-- How a template is compiled. -/
structure CompileOptions where
  /-- The file that issues and directives name. -/
  file : String
  /-- The module that declares what generated code calls. -/
  typesModule : String
  /-- The value that a template belongs to; without one the template stands for itself. -/
  backing : Option String := none
  /-- Code before and after the expression. -/
  before : String := ""
  after : String := ""
  /-- Lines at the start of the body. -/
  preamble : List String := []
  forms : Table SpecialForm := .empty
  globals : Option (List String) := none

/-- Code with its mapping. Source spans count from the start of the embedding, generated ones from the
start of the code. -/
structure Compiled where
  code : String
  mapping : Mapping.Tree
  issues : List Issue
  directives : List Directive

namespace Compiled

/-- What generated code starts with. -/
def header (o : CompileOptions) : String :=
  let dsl := "typeof import(\"" ++ o.typesModule ++ "\")"
  let callback := "function(__glintRef__, __glintDSL__: " ++ dsl ++ ") \x7b"
  o.before ++ "(\x7b\x7d as " ++ dsl ++ ")" ++
    (match o.backing with
     | some backing => ".templateForBackingValue(" ++ backing ++ ", " ++ callback
     | none => ".templateExpression(" ++ callback) ++
    String.join (o.preamble.map ("\n  " ++ ·))

/-- What generated code ends with. -/
def footer (o : CompileOptions) : String :=
  "\n  __glintRef__; __glintDSL__;\n\x7d)" ++ o.after

/-- The body of generated code: the statements of the template, or the one issue that it is none. -/
def body (o : CompileOptions) (source : String) : Draft :=
  match Template.parse source with
  | .ok t => Emit.statements { forms := o.forms, globals := o.globals } 1 t.body
  | .error e => [.issue (.unreadable e.fault) e.span]

/-- Compiles the template at `content` in an embedding with its delimiters. A span that does not cut
the embedding between characters holds no template. -/
def ofTemplate (embedding : String) (content : Span) (o : CompileOptions) : Compiled :=
  let draft := body o ((content.slice embedding).getD "")
  let code := header o ++ Draft.code draft ++ footer o
  let start := Text.size (header o)
  let template : Mapping.Tree :=
    .mk .template content ⟨start, start + Draft.size draft⟩ (Draft.trees content.start start draft)
  { code
    mapping := .mk .embedding (.ofText embedding) (.ofText code) [template]
    issues := (Draft.issues draft).map fun (cause, span) =>
      ⟨cause, o.file, span.shift content.start⟩
    directives := (Draft.directives draft).map fun d =>
      { kind := d.kind
        file := o.file
        location := d.location.shift content.start
        area :=
          match d.area with
          | some area => area.shift content.start
          | none => .ofText embedding } }

end Compiled

end TypedTemplate
