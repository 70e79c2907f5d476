/-
Weaving: the templates of a script and its companion are compiled, and their code takes their places
in the script.
-/
import TypedTemplate.Companion
import TypedTemplate.Files
import TypedTemplate.Module.Basic
import TypedTemplate.Script.Native
import TypedTemplate.Script.Reader.Module

namespace TypedTemplate

/-- Why a module cannot be woven. -/
inductive WeaveError where
  | unclosedTemplate (file : String) (error : Script.UnclosedTemplate)
  /-- What is not a template in the file is no script. -/
  | notAScript (file : String)
  | unreadable (file : String)
  deriving Repr, DecidableEq

/-- Why weaving stops. -/
inductive WeaveFault where
  | refused (error : WeaveError)
  /-- A template is to be put inside a character of the script, or to be taken from there. -/
  | cut
  deriving Repr, DecidableEq

namespace Module

open Script

/-! ## Templates of a script -/

/-- A tagged literal that is a template. -/
structure TaggedTemplate where
  range : Span
  content : Span
  dialect : Dialect
  isStatic : Bool
  interpolated : Bool

/-- The span between the first backtick after the tag and the last one. -/
def literalContent (source : String) (tagStop : Nat) (range : Span) : Span :=
  let text := ((Span.mk tagStop range.stop).slice source).getD ""
  let start := tagStop + Text.byteLength (text.toList.takeWhile (· != '`')) + 1
  ⟨start, max (range.stop - 1) start⟩

mutual

/-- The templates among literals. What is in a template is not looked at. -/
def templatesOf (source : String) (dialect? : String → Option Dialect) :
    Embedded → List TaggedTemplate
  | .tagged tag tagStop range interpolated inside =>
    match dialect? tag with
    | some d => [⟨range, literalContent source tagStop range, d, false, interpolated⟩]
    | none => templatesOfAll source dialect? inside
  | .staticValue key (.tagged tag tagStop range interpolated inside) decorators =>
    match dialect? tag with
    | some d => [⟨range, literalContent source tagStop range, d, true, interpolated⟩]
    | none =>
      templatesOfAll source dialect? key ++ templatesOfAll source dialect? inside ++
        templatesOfAll source dialect? decorators
  | .staticValue key value decorators =>
    templatesOfAll source dialect? key ++ templatesOf source dialect? value ++
      templatesOfAll source dialect? decorators

def templatesOfAll (source : String) (dialect? : String → Option Dialect) :
    List Embedded → List TaggedTemplate
  | [] => []
  | e :: es => templatesOf source dialect? e ++ templatesOfAll source dialect? es

end

/-- The dialect of a name that is imported as a tag; of two imports of a name the last counts. -/
def importedDialect? (env : Environment) (imports : List ImportedName) (name : String) :
    Option Dialect :=
  imports.reverse.findSome? fun i =>
    if i.localName = name then env.tag? i.source i.exported else none

/-- The forms of a dialect with those that are imported, by the names they have here. -/
def formsWithImports (dialect : Dialect) (imports : List ImportedName) : Table SpecialForm :=
  imports.foldl (fun forms i =>
    match (dialect.formImports.get? i.source).bind (·.get? i.exported) with
    | some form => forms.insert i.localName form
    | none => forms) dialect.forms

/-! ## Replacements -/

/-- What goes around the code of a template. -/
structure Wrapper where
  backing : Option String := none
  before : String := ""
  after : String := ""

/-- Code of a template that replaces a stretch of the script. -/
structure Replacement where
  range : Span
  file : String
  source : Span
  compiled : Compiled

/-- What one template contributes to a module. -/
structure Contribution where
  replacement : Option Replacement := none
  issues : List Issue := []
  directives : List Directive := []

/-- Compiles a template in a dialect. -/
def compile (imports : List ImportedName) (file : String) (embedding : String) (content : Span)
    (dialect : Dialect) (w : Wrapper) : Compiled :=
  Compiled.ofTemplate embedding content
    { file
      typesModule := dialect.typesModule
      backing := w.backing
      before := w.before
      after := w.after
      forms := formsWithImports dialect imports
      globals := dialect.globals }

/-- A template that is a part of the script. -/
def embed (imports : List ImportedName) (script : SourceFile) (range content : Span)
    (dialect : Dialect) (w : Wrapper) : Contribution :=
  let embedding := (range.slice script.contents).getD ""
  let inner : Span := ⟨content.start - range.start, content.stop - range.start⟩
  let compiled := compile imports script.path embedding inner dialect w
  { replacement := some ⟨range, script.path, range, compiled⟩
    issues := compiled.issues.map (·.shift range.start)
    directives := compiled.directives.map (·.shift range.start) }

/-- A template in a file of its own, put into the script at a place. -/
def attach (imports : List ImportedName) (template : SourceFile) (place : Nat) (dialect : Dialect)
    (w : Wrapper) : Contribution :=
  let whole := Span.ofText template.contents
  let compiled := compile imports template.path template.contents whole dialect w
  { replacement := some ⟨.empty place, template.path, whole, compiled⟩
    issues := compiled.issues
    directives := compiled.directives }

/-- A member of a class that holds a template of its instances. -/
def memberWrapper : Wrapper := ⟨some "this", "static \x7b ", " \x7d"⟩

/-- A tagged literal. One with expressions is refused and stays as it is. -/
def ofTagged (imports : List ImportedName) (script : SourceFile) (t : TaggedTemplate) : Contribution :=
  if t.interpolated then { issues := [⟨.interpolated, script.path, t.range⟩] }
  else
    embed imports script t.range t.content t.dialect
      { backing := if t.isStatic then some "this" else none }

/-- A native template. -/
def ofNative (imports : List ImportedName) (script : SourceFile) (dialect : Dialect)
    (t : NativeTemplate) : Contribution :=
  let w : Wrapper :=
    match t.placement with
    | .classMember => memberWrapper
    | .expression => {}
    | .topLevel => { before := "export default ", after := ";" }
  embed imports script t.range t.content dialect w

/-- A companion: a member of the class that is exported by default, or a statement at the end. -/
def ofCompanion (outline : Outline) (script : SourceFile) (template : SourceFile) (dialect : Dialect) :
    Contribution :=
  match outline.defaultClassClose? with
  | some close => attach outline.imports template close dialect memberWrapper
  | none =>
    attach outline.imports template (Text.size script.contents) dialect
      { before := "\n", after := ";" }

/-! ## Segments -/

/-- The stretch of the script between two places, if it is not empty, as code that starts at `start`.
Nothing if one of the places is inside a character. -/
def passThrough (script : SourceFile) (source stop start : Nat) : Option (List Segment) :=
  if source < stop then
    (Text.slice script.contents source stop).map fun code =>
      [{ file := script.path
         source := ⟨source, stop⟩
         generated := ⟨start, start + (stop - source)⟩
         code }]
  else some []

/-- A replacement as code that starts at `start`. -/
def Replacement.segment (r : Replacement) (start : Nat) : Segment where
  file := r.file
  source := r.source
  generated := ⟨start, start + Text.size r.compiled.code⟩
  code := r.compiled.code
  mapping := some r.compiled.mapping

/-- The script from `pos` on with its replacements, as code that starts at `start`. Nothing if a
replacement cuts a character of the script. -/
def correlate (script : SourceFile) (pos start : Nat) : List Replacement → Option (List Segment)
  | [] => passThrough script pos (Text.size script.contents) start
  | r :: rest => do
    let before ← passThrough script pos r.range.start start
    let segment := r.segment (start + (r.range.start - pos))
    let after ← correlate script r.range.stop segment.generated.stop rest
    some (before ++ segment :: after)

/-! ## Modules -/

/-- The files of a module; a companion with the path of the script takes its place. -/
def sourcesOf (script : SourceFile) : Option SourceFile → List SourceFile
  | none => [script]
  | some template =>
    if Path.same script.path template.path then [⟨script.path, template.contents⟩]
    else [script, template]

/-- The native templates of a script, if there can be any. -/
def nativeTemplates (env : Environment) (script : SourceFile) :
    Except WeaveError (List NativeTemplate) :=
  match env.native with
  | none => .ok []
  | some _ =>
    match Native.scan script.contents with
    | .ok found => .ok found
    | .error e => .error (.unclosedTemplate script.path e)

/-- What the templates of a script and its companion contribute, by the outline of the script. -/
def contributions (env : Environment) (script : SourceFile)
    (companion : Option (SourceFile × CompanionRules)) (native : List NativeTemplate)
    (masked : String) (outline : Outline) : List Contribution :=
  let imports := outline.imports
  let tagged := templatesOfAll masked (importedDialect? env imports) outline.embedded
  tagged.map (ofTagged imports script) ++
    (match env.native with
     | some dialect => native.map (ofNative imports script dialect)
     | none => []) ++
    (match companion with
     | some (template, rules) => [ofCompanion outline script template rules.dialect]
     | none => [])

/-- The replacements of contributions in the order of the script. -/
def replacementsOf (parts : List Contribution) : List Replacement :=
  (parts.filterMap (·.replacement)).mergeSort fun a b => a.range.start ≤ b.range.start

/-- The module that contributions make of a script; none if they change nothing. -/
def ofContributions (script : SourceFile) (companion : Option SourceFile)
    (parts : List Contribution) : Except WeaveFault (Option Module) :=
  let replacements := replacementsOf parts
  let issues := parts.flatMap (·.issues)
  if replacements.isEmpty && issues.isEmpty then .ok none
  else
    match correlate script 0 0 replacements with
    | none => .error .cut
    | some segments =>
      .ok (some
        { file := script.path
          sources := sourcesOf script companion
          segments
          issues
          directives := parts.flatMap (·.directives) })

/-- Weaves a script with its companion; none if there is nothing to weave. The script is read only if
there can be something. -/
def weaveWith (reader : ScriptReader) (env : Environment) (script : SourceFile) (companion : Option SourceFile) :
    Except WeaveFault (Option Module) := do
  let companion := companion.bind fun template => env.companion.map fun rules => (template, rules)
  let native ← (nativeTemplates env script).mapError .refused
  if native.isEmpty && companion.isNone && !env.mentionsTag script.contents then return none
  let masked := Native.mask native script.contents
  match reader masked with
  | none => .error (.refused (.notAScript script.path))
  | some outline =>
    ofContributions script (companion.map (·.1)) (contributions env script companion native masked outline)

/-- Weaves a script that is read by the grammar of scripts. An outline with a place inside a character is none of
a script. -/
def weave (env : Environment) (script : SourceFile) (companion : Option SourceFile) :
    Except WeaveError (Option Module) :=
  match weaveWith Outline.ofText? env script companion with
  | .ok woven => .ok woven
  | .error (.refused e) => .error e
  | .error .cut => .error (.notAScript script.path)

/-- A file that has to be there. -/
def readSource (files : Files) (path : String) : Except WeaveError SourceFile :=
  match files.read? path with
  | some contents => .ok ⟨path, contents⟩
  | none => .error (.unreadable path)

/-- Weaves the module that a template belongs to; without a script, that of an empty one. -/
def ofTemplatePath (env : Environment) (rules : CompanionRules) (files : Files) (path : String) :
    Except WeaveError (Option Module) := do
  let template ← readSource files path
  let script ←
    match Companion.script? rules files.present path with
    | some script => readSource files script
    | none => pure ⟨Path.withExtension path "ts", ""⟩
  weave env script (some template)

/-- Weaves the module of a script. -/
def ofScriptPath (env : Environment) (files : Files) (path : String) :
    Except WeaveError (Option Module) := do
  let script ← readSource files path
  let companion ←
    match env.companion.bind fun rules => Companion.template? rules files.present path with
    | some template => do pure (some (← readSource files template))
    | none => pure none
  weave env script companion

/-- Weaves the module that a path belongs to, of a script or of a template. -/
def ofPath (env : Environment) (files : Files) (path : String) : Except WeaveError (Option Module) :=
  match env.companion with
  | some rules =>
    if (Companion.dropSuffix? path rules.templateExtension).isSome then
      ofTemplatePath env rules files path
    else ofScriptPath env files path
  | none => ofScriptPath env files path

end Module

end TypedTemplate
