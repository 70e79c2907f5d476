/-
Modules whose templates are compiled. A module is a row of segments: stretches of the script as they
are, and the code of templates with its mapping.
-/
import TypedTemplate.Compiled
import TypedTemplate.Path

namespace TypedTemplate

/-- A file by its path and its text. -/
structure SourceFile where
  path : String
  contents : String
  deriving Repr, DecidableEq, Inhabited

/-- A stretch of a module's code and the stretch of a file that it comes from. Without a mapping the
code is that of the file; the spans of a mapping count from the starts of the two stretches. -/
structure Segment where
  file : String
  source : Span
  generated : Span
  code : String
  mapping : Option Mapping.Tree := none

/-- A module: the script it belongs to, the files it comes from, and its segments in the order of its
code. -/
structure Module where
  file : String
  sources : List SourceFile
  segments : List Segment
  issues : List Issue
  directives : List Directive

namespace Module

/-- The code of a module. -/
def contents (m : Module) : String := String.join (m.segments.map (·.code))

/-- The text of a file that a module comes from. -/
def source? (m : Module) (file : String) : Option String :=
  (m.sources.find? fun s => Path.same s.path file).map (·.contents)

/-- The files that a module comes from, in the order of paths. -/
def files (m : Module) : List String :=
  (m.sources.map (·.path)).mergeSort fun a b => !Path.less b a

/-- The segments with a mapping, with the texts that it pairs. -/
def render (m : Module) : String :=
  "TransformedModule\n\n" ++ String.join (m.segments.map fun s =>
    match s.mapping with
    | none => ""
    | some mapping =>
      let text := ((m.source? s.file).bind s.source.slice).getD ""
      s.file ++ " " ++ s.source.render ++ " -> " ++ s.generated.render ++ "\n" ++
        mapping.render text s.code ++ "\n")

end Module

end TypedTemplate
