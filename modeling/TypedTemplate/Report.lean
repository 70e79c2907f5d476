/-
Reports: diagnostics with lines and columns, for people, for machines and as JSON, and the summary of
a check.
-/
import TypedTemplate.Diagnostic.Basic
import TypedTemplate.Json.Printer
import TypedTemplate.LineIndex

namespace TypedTemplate

/-- How a report is written. -/
inductive ReportFormat where
  | human
  | json
  | machine
  deriving Repr, DecidableEq, Inhabited

def ReportFormat.ofName? : String → Option ReportFormat
  | "human" => some .human
  | "json" => some .json
  | "machine" => some .machine
  | _ => none

/-- The word for a severity in a report. -/
def Severity.label : Severity → String
  | .message => "Message"
  | .suggestion => "Suggestion"
  | .warning => "Warning"
  | .error => "Error"

namespace Report

/-- A place in a file, its line and column counted from one. -/
structure Place where
  line : Nat
  column : Nat
  offset : Nat
  deriving Repr, DecidableEq

/-- The place at an offset. Without a text, or past its end, it is on the first line. -/
def Place.at (lines : Option LineIndex) (offset : Nat) : Place :=
  let p := (((lines.bind (·.lineCol? offset)).getD ⟨0, 0⟩)).oneBased
  ⟨p.line, p.col, offset⟩

/-- Whether 32 bits hold the numbers of a place. -/
def Place.fits (p : Place) : Bool :=
  p.line ≤ maxPosition && p.column ≤ maxPosition && p.offset ≤ maxPosition

def Place.toJson (p : Place) : Json :=
  .object [("line", .nat p.line), ("column", .nat p.column), ("offset", .nat p.offset)]

/-- A diagnostic with the places where it starts and ends. -/
structure Entry where
  severity : Severity
  file : String
  start : Place
  stop : Place
  message : String
  code : Nat
  deriving Repr, DecidableEq

namespace Entry

/-- The entry of a diagnostic about a file of the given lines. -/
def ofDiagnostic (lines : Option LineIndex) (d : Diagnostic) : Entry :=
  { severity := d.severity
    file := d.file
    start := .at lines d.start
    stop := .at lines (d.start + d.length)
    message := d.message
    code := d.code }

/-- Whether 32 bits hold the places of an entry. -/
def fits (e : Entry) : Bool := e.start.fits && e.stop.fits

def toJson (e : Entry) : Json :=
  .object [
    ("type", .string e.severity.label), ("filename", .string e.file), ("start", e.start.toJson),
    ("end", e.stop.toJson), ("message", .string e.message), ("code", .nat e.code)]

/-- The message with its code. -/
def text (e : Entry) : String := e.message ++ " (" ++ toString e.code ++ ")"

/-- An entry for people: a line for the place, a line for the message, and an empty line. -/
def human (e : Entry) : String :=
  e.file ++ ":" ++ toString e.start.line ++ ":" ++ toString e.start.column ++ "\n" ++
    e.severity.label ++ ": " ++ e.text ++ "\n\n"

/-- An entry on one line. -/
def machine (e : Entry) : String :=
  e.severity.label.toUpper ++ " " ++ e.file ++ ":" ++ toString e.start.line ++ ":" ++
    toString e.start.column ++ ":" ++ toString e.stop.line ++ ":" ++ toString e.stop.column ++ " " ++
    e.text ++ "\n"

end Entry

/-- The entries of the diagnostics about a file. -/
def entries (source : Option String) (diagnostics : List Diagnostic) : List Entry :=
  diagnostics.map (.ofDiagnostic (source.map .ofText))

/-- The entries of the diagnostics about a file, if 32 bits hold all their places. -/
def entries? (source : Option String) (diagnostics : List Diagnostic) : Option (List Entry) :=
  if (entries source diagnostics).all (·.fits) then some (entries source diagnostics) else none

/-- Entries as one JSON text. -/
def json (entries : List Entry) : String := (Json.array (entries.map (·.toJson))).pretty 0

def render (format : ReportFormat) (entries : List Entry) : String :=
  match format with
  | .human => String.join (entries.map (·.human))
  | .json => json entries
  | .machine => String.join (entries.map (·.machine))

end Report

/-- What a check counted. -/
structure Summary where
  files : Nat
  errors : Nat
  warnings : Nat
  failOnWarnings : Bool
  deriving Repr, DecidableEq

namespace Summary

/-- A check fails on errors and, if asked to, on warnings. -/
def failed (s : Summary) : Bool := 0 < s.errors || (s.failOnWarnings && 0 < s.warnings)

/-- A number of things. -/
def counted (n : Nat) (word : String) : String :=
  if n = 1 then toString n ++ " " ++ word else toString n ++ " " ++ word ++ "s"

def render (s : Summary) : String :=
  "====================================\nglint-check found " ++ counted s.errors "error" ++ " and " ++
    counted s.warnings "warning" ++ " in " ++ counted s.files "file"

end Summary

end TypedTemplate
