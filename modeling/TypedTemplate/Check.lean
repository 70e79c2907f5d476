/-
A check of a directory: its modules are woven, their issues and a checker's diagnostics are collected,
and a report is written.
-/
import TypedTemplate.Arguments
import TypedTemplate.Diagnostic.Relocation
import TypedTemplate.Glob
import TypedTemplate.Module.Weave
import TypedTemplate.Project

namespace TypedTemplate

/-- Why there is no report. -/
inductive CheckError where
  | project (error : ProjectError)
  /-- A pattern cannot be read. -/
  | badPattern
  | unreadableDiagnostics (path : String)
  | malformedDiagnostics (path : String)
  | position (fault : PositionFault)

def CheckError.message : CheckError → String
  | .project e => e.message
  | .badPattern => "invalid glob pattern"
  | .unreadableDiagnostics path => "failed to read diagnostics from " ++ path
  | .malformedDiagnostics path => "invalid diagnostics in " ++ path
  | .position .crossesFiles => "a range starts and ends in different files"
  | .position .disordered => "a range ends before it starts"

namespace Check

/-! ## Files -/

/-- What is left out of every check. -/
def defaultIgnores : List String := ["**/node_modules/**", "**/dist/**", "**/tmp/**"]

/-- The patterns of what is left out. -/
def ignoreSet (patterns : List String) : Except CheckError (List Glob) :=
  match (patterns ++ defaultIgnores).mapM Glob.parse? with
  | some globs => .ok globs
  | none => .error .badPattern

/-- Whether a file below a directory has one of the extensions. -/
def hasExtension (root path : String) (extensions : List String) : Bool :=
  let name := (Path.fileName? (Path.join root path)).getD ""
  extensions.any fun e => (Companion.dropSuffix? name e).isSome

/-- The files to check, by their paths from the directory, in the order of paths. -/
def discover (tree : FileTree) (root : String) (extensions : List String) (ignores : List Glob) :
    List String :=
  ((tree.below root).filter fun path =>
    hasExtension root path extensions && !ignores.any (·.isMatch path)).mergeSort
      fun a b => !Path.less b a

/-! ## Modules -/

/-- Weaves the module of a script. A script without a companion that cannot hold a template is not
looked into. -/
def scriptModule (env : Environment) (files : Files) (path : String) :
    Except WeaveError (Option Module) := do
  let script ← Module.readSource files path
  let companion := env.companion.bind fun rules => Companion.template? rules files.present path
  if companion.isNone && !env.mayEmbed script.contents then return none
  let companion ←
    match companion with
    | some template => do pure (some (← Module.readSource files template))
    | none => pure none
  Module.weave env script companion

/-- The module that a file stands for. A template whose script is checked too belongs to the module of
the script. -/
def moduleOf (env : Environment) (files : Files) (checked : List String) (path : String) :
    Option (Except WeaveError (Option Module)) :=
  match env.companion with
  | some rules =>
    if (Companion.dropSuffix? path rules.templateExtension).isSome then
      match Companion.script? rules files.present path with
      | some script =>
        if checked.any (Path.same · script) then none else some (Module.ofPath env files path)
      | none => some (Module.ofPath env files path)
    else some (scriptModule env files path)
  | none => some (scriptModule env files path)

/-- The message about a file that is no script. -/
def notAScriptMessage : String := "Syntax error"

/-- The diagnostics about a module that cannot be woven; a file that cannot be read gives a warning in
their place. -/
def errorDiagnostics : WeaveError → List Diagnostic
  | .unclosedTemplate file e => [.ofSpan file e.span e.message Diagnostic.issueCode]
  | .notAScript file => [.ofSpan file (.empty 0) notAScriptMessage Diagnostic.issueCode]
  | .unreadable _ => []

def warningOf? : WeaveError → Option String
  | .unreadable file => some ("unable to read " ++ file)
  | _ => none

/-- What weaving the files gave. -/
structure Woven where
  modules : List Module := []
  diagnostics : List Diagnostic := []
  warnings : List String := []

/-- Adds a result. -/
def Woven.add (w : Woven) : Except WeaveError (Option Module) → Woven
  | .ok none => w
  | .ok (some m) =>
    { w with modules := Module.put w.modules m
             diagnostics := w.diagnostics ++ m.issues.map .ofIssue }
  | .error e =>
    { w with diagnostics := w.diagnostics ++ errorDiagnostics e
             warnings := w.warnings ++ (warningOf? e).toList }

def weaveAll (env : Environment) (files : Files) (paths : List String) : Woven :=
  (paths.filterMap (moduleOf env files paths)).foldl Woven.add {}

/-! ## Diagnostics of a checker -/

/-- A path as seen from a directory, if it lies below it. -/
def relativize (root path : String) : String := (Path.stripStart? path root).getD path

/-- Diagnostics about files below a directory, by their paths from there. -/
def relativizeAll (root : String) (d : Diagnostic) : Diagnostic :=
  { d with
    file := relativize root d.file
    related := d.related.map fun r => { r with file := relativize root r.file } }

/-- The diagnostics in a file. -/
def external (tree : FileTree) (current root path : String) : Except CheckError (List Diagnostic) :=
  match tree.read? (Path.join current path) with
  | none => .error (.unreadableDiagnostics path)
  | some text =>
    match Diagnostic.parse? text with
    | none => .error (.malformedDiagnostics path)
    | some ds => .ok (ds.map (relativizeAll root))

/-! ## Checks -/

/-- What a check found. -/
structure Outcome where
  /-- The modules in the order of their files. -/
  modules : List Module
  /-- The diagnostics by file and position. -/
  diagnostics : List Diagnostic
  files : Nat
  warnings : List String

/-- By file, then by position. -/
def inOrder (a b : Diagnostic) : Bool :=
  Path.less a.file b.file || (Path.same a.file b.file && a.start ≤ b.start)

/-- Checks the directory `root`; `current` is where paths in arguments start. -/
def outcome (tree : FileTree) (current root : String) (args : Arguments) :
    Except CheckError Outcome := do
  let (project, problems) ← (Project.load tree root args.config).mapError .project
  let env := project.environment
  let ignores ← ignoreSet (args.ignore ++ project.exclude)
  let paths := discover tree root project.extensions ignores
  let woven := weaveAll env (tree.seenFrom root) paths
  let modules := Module.catalog woven.modules
  let reported ←
    match args.diagnostics with
    | none => pure []
    | some path => do
      let relocated ← (Relocated.ofDiagnostics modules (← external tree current root path)).mapError
        .position
      pure relocated.diagnostics
  return {
      modules
      diagnostics := (woven.diagnostics ++ reported).mergeSort inOrder
      files := paths.length
      warnings := problems.map (·.message) ++ woven.warnings }

/-- The diagnostics of each file, in the order of files. -/
def byFile : List Diagnostic → List (List Diagnostic)
  | [] => []
  | d :: ds =>
    match byFile ds with
    | (e :: es) :: groups =>
      if Path.same d.file e.file then (d :: e :: es) :: groups else [d] :: (e :: es) :: groups
    | groups => [d] :: groups

/-- The text of a file as it was written. -/
def writtenText? (modules : List Module) (files : Files) (file : String) : Option String :=
  (modules.findSome? (·.source? file)).orElse fun _ => files.read? file

/-- The entries of a report, file by file. -/
def entries? (files : Files) (o : Outcome) : Option (List Report.Entry) := do
  let groups ← (byFile o.diagnostics).mapM fun group =>
    Report.entries? ((group.head?).bind fun d => writtenText? o.modules files d.file) group
  some groups.flatten

/-- What is printed about a module. -/
def moduleText (args : Arguments) (m : Module) : String :=
  (if args.showCode then
    "=== TypeScript for " ++ m.file ++ " ===\n" ++ m.contents ++ "\n" else "") ++
  (if args.showMapping then
    "=== Mapping for " ++ m.file ++ " ===\n" ++ m.render ++ "\n" else "")

/-- What a check prints, and what it counted. -/
structure Result where
  output : String
  errorOutput : String
  summary : Summary

def countOf (severity : Severity) (diagnostics : List Diagnostic) : Nat :=
  (diagnostics.filter (·.severity == severity)).length

/-- The result for what a check found, with the entries of its report. -/
def resultOf (args : Arguments) (o : Outcome) (entries : List Report.Entry) : Result :=
  let summary : Summary :=
    { files := o.files
      errors := countOf .error o.diagnostics
      warnings := countOf .warning o.diagnostics
      failOnWarnings := args.failOnWarnings }
  let report := Report.render args.format entries
  { output :=
      match args.format with
      | .human => report ++ summary.render ++ "\n"
      | .json => report ++ "\n"
      | .machine => report
    errorOutput :=
      String.join (o.warnings.map fun w => "Warning: " ++ w ++ "\n") ++
        String.join (o.modules.map (moduleText args))
    summary }

/-- Runs a check. `current` is the directory where paths in arguments start, other than that of the
settings, which starts in the directory that is checked. -/
def run (tree : FileTree) (current : String) (args : Arguments) : Except CheckError Result := do
  let root := Path.join current args.workspace
  let o ← outcome tree current root args
  match entries? (tree.seenFrom root) o with
  | some entries => return resultOf args o entries
  -- counting on past the last position, a range would end before it starts
  | none => .error (.position .disordered)

end Check

end TypedTemplate
