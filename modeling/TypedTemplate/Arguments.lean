/-
The arguments of a check. An option takes the argument after it or what follows an equals sign; a value
is looked at when the next option comes or the arguments end, so that an argument that is not known
is reported before a value that is not allowed.
-/
import TypedTemplate.Report

namespace TypedTemplate

structure Arguments where
  /-- The directory that is checked. -/
  workspace : String := "."
  /-- The file of settings. -/
  config : Option String := none
  format : ReportFormat := .human
  /-- Whether the code of modules is printed. -/
  showCode : Bool := false
  /-- Whether the mappings of modules are printed. -/
  showMapping : Bool := false
  /-- Patterns of files that are left out. -/
  ignore : List String := []
  /-- A file of diagnostics about the code of modules. -/
  diagnostics : Option String := none
  failOnWarnings : Bool := false
  verbose : Bool := false
  deriving Repr, DecidableEq

/-- Why arguments are refused, or what is shown in place of a check. -/
inductive ArgumentError where
  | unknown
  | invalidValue
  | repeated
  | unwantedValue
  | help
  | version
  deriving Repr, DecidableEq

/-- What is printed about arguments that are refused. -/
def ArgumentError.message : ArgumentError → String
  | .unknown => "error: unexpected argument found"
  | .invalidValue => "error: a value is required or not allowed for an argument"
  | .repeated => "error: an argument cannot be used multiple times"
  | .unwantedValue => "error: unexpected value for an argument"
  | .help => "Transform Glimmer templates to TypeScript and report template problems"
  | .version => "0.4.2"

/-- Whether a text is printed because it was asked for. -/
def ArgumentError.isAsked (e : ArgumentError) : Bool := e = .help || e = .version

namespace Arguments

/-- An option that takes a value. -/
inductive Setting where
  | workspace
  | config
  | output
  | ignore
  | diagnostics
  deriving Repr, DecidableEq

/-- An option without a value. -/
inductive Switch where
  | emitCode
  | debugMapping
  | failOnWarnings
  | verbose
  | help
  | version
  deriving Repr, DecidableEq

/-- An option by its name. -/
inductive Named where
  | setting (s : Setting)
  | switch (s : Switch)
  deriving Repr, DecidableEq

def Named.ofLong? : String → Option Named
  | "workspace" => some (.setting .workspace)
  | "config" => some (.setting .config)
  | "output" => some (.setting .output)
  | "ignore" => some (.setting .ignore)
  | "diagnostics" => some (.setting .diagnostics)
  | "emit-ts" => some (.switch .emitCode)
  | "debug-mapping" => some (.switch .debugMapping)
  | "fail-on-warnings" => some (.switch .failOnWarnings)
  | "verbose" => some (.switch .verbose)
  | "help" => some (.switch .help)
  | "version" => some (.switch .version)
  | _ => none

def Switch.ofShort? : Char → Option Switch
  | 'v' => some .verbose
  | 'h' => some .help
  | 'V' => some .version
  | _ => none

/-- What is read so far: the arguments, the options that were given, and an option whose value is not
looked at yet or still to come. -/
structure Progress where
  result : Arguments := {}
  given : List Named := []
  pending : Option (Setting × Option String) := none

namespace Progress

/-- Notes that an option is given, which only patterns may be twice. -/
def note (p : Progress) (o : Named) : Except ArgumentError Progress :=
  if p.given.contains o then .error .repeated else .ok { p with given := o :: p.given }

/-- Gives an option its value. -/
def set (p : Progress) (s : Setting) (value : String) : Except ArgumentError Progress := do
  match s with
  | .ignore => return { p with result.ignore := p.result.ignore ++ [value] }
  | s =>
    let p ← p.note (.setting s)
    match s with
    | .workspace => return { p with result.workspace := value }
    | .config => return { p with result.config := some value }
    | .diagnostics => return { p with result.diagnostics := some value }
    | .ignore => return p
    | .output =>
      match ReportFormat.ofName? value with
      | some format => return { p with result.format := format }
      | none => .error .invalidValue

/-- Looks at the value that waits, which must have come. -/
def settle (p : Progress) : Except ArgumentError Progress :=
  match p.pending with
  | none => .ok p
  | some (_, none) => .error .invalidValue
  | some (s, some value) => { p with pending := none }.set s value

/-- Takes an option without a value. -/
def turnOn (p : Progress) (s : Switch) : Except ArgumentError Progress := do
  let p ← p.settle
  match s with
  | .help => .error .help
  | .version => .error .version
  | s =>
    let p ← p.note (.switch s)
    match s with
    | .emitCode => return { p with result.showCode := true }
    | .debugMapping => return { p with result.showMapping := true }
    | .failOnWarnings => return { p with result.failOnWarnings := true }
    | .verbose => return { p with result.verbose := true }
    | _ => return p

/-- Takes an option with a long name, with the value after its equals sign. -/
def long (p : Progress) (name : String) (value : Option String) : Except ArgumentError Progress :=
  match Named.ofLong? name, value with
  | none, _ => .error .unknown
  | some (.switch s), none => p.turnOn s
  | some (.switch _), some _ => .error .unwantedValue
  | some (.setting s), some value => do (← p.settle).set s value
  | some (.setting s), none => do return { ← p.settle with pending := some (s, none) }

/-- Takes options with short names. -/
def shorts (p : Progress) : List Char → Except ArgumentError Progress
  | [] => .ok p
  | c :: cs =>
    match Switch.ofShort? c with
    | none => .error .unknown
    | some s => do (← p.turnOn s).shorts cs

/-- Takes one argument. -/
def take (p : Progress) (arg : String) : Except ArgumentError Progress :=
  match arg.toList with
  | '-' :: '-' :: cs =>
    let value :=
      match cs.dropWhile (· != '=') with
      | [] => none
      | _ :: value => some (String.ofList value)
    p.long (String.ofList (cs.takeWhile (· != '='))) value
  | '-' :: c :: cs => p.shorts (c :: cs)
  | _ =>
    match p.pending with
    | some (s, none) => .ok { p with pending := some (s, some arg) }
    | _ => .error .unknown

/-- Takes arguments one by one. What follows two hyphens is no option, and there is nothing else to
give. -/
def takeAll (p : Progress) : List String → Except ArgumentError Progress
  | [] => .ok p
  | "--" :: rest => if rest.isEmpty then .ok p else .error .unknown
  | arg :: rest => do (← p.take arg).takeAll rest

end Progress

def parse (args : List String) : Except ArgumentError Arguments := do
  let p ← Progress.takeAll {} args
  return (← p.settle).result

end Arguments

end TypedTemplate
