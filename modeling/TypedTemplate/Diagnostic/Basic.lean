/-
Diagnostics: what a checker reports about a stretch of a file, and what a template's own issues and
directives report. Positions and lengths are numbers of 32 bits.
-/
import TypedTemplate.Issue
import TypedTemplate.Directive
import TypedTemplate.Json.Decode
import TypedTemplate.Json.Reader

namespace TypedTemplate

/-- How grave a diagnostic is. -/
inductive Severity where
  | message
  | suggestion
  | warning
  | error
  deriving Repr, DecidableEq, Inhabited

def Severity.name : Severity → String
  | .message => "message"
  | .suggestion => "suggestion"
  | .warning => "warning"
  | .error => "error"

def Severity.ofName? : String → Option Severity
  | "message" => some .message
  | "suggestion" => some .suggestion
  | "warning" => some .warning
  | "error" => some .error
  | _ => none

/-- The span of a length from a start on, which ends at the last position at the latest. -/
def Span.ofLength (start length : Nat) : Span := ⟨start, min (start + length) maxPosition⟩

/-- Another place that a diagnostic refers to. -/
structure RelatedPlace where
  file : String
  start : Nat
  length : Nat
  message : String
  deriving Repr, DecidableEq, Inhabited

def RelatedPlace.span (r : RelatedPlace) : Span := .ofLength r.start r.length

structure Diagnostic where
  file : String
  start : Nat
  length : Nat
  message : String
  code : Nat
  severity : Severity := .error
  related : List RelatedPlace := []
  deriving Repr, DecidableEq, Inhabited

namespace Diagnostic

def span (d : Diagnostic) : Span := .ofLength d.start d.length

/-- An error about a span of a file. -/
def ofSpan (file : String) (location : Span) (message : String) (code : Nat) : Diagnostic :=
  { file, start := location.start, length := location.length, message, code }

/-- The code of what is found while a template is compiled. -/
def issueCode : Nat := 0

/-- The code of a directive that expects an error where there is none. -/
def unusedCode : Nat := 2578

def ofIssue (i : Issue) : Diagnostic := ofSpan i.file i.location i.message issueCode

/-- The report that a directive found no error. -/
def unused (d : Directive) : Diagnostic :=
  ofSpan d.file d.location "Unused '@glint-expect-error' directive." unusedCode

end Diagnostic

/-! ## Diagnostics in JSON -/

def RelatedPlace.fields : List String := ["file", "start", "length", "message"]

def RelatedPlace.ofJson? (j : Json) : Option RelatedPlace := do
  let fields ← Json.record? RelatedPlace.fields j
  some
    { file := ← Json.field? fields "file" Json.asString?
      start := ← Json.field? fields "start" Json.asWord?
      length := ← Json.field? fields "length" Json.asWord?
      message := ← Json.field? fields "message" Json.asString? }

namespace Diagnostic

def fields : List String := ["file", "start", "length", "message", "code", "severity", "related"]

def ofJson? (j : Json) : Option Diagnostic := do
  let fields ← Json.record? fields j
  some
    { file := ← Json.field? fields "file" Json.asString?
      start := ← Json.field? fields "start" Json.asWord?
      length := ← Json.field? fields "length" Json.asWord?
      message := ← Json.field? fields "message" Json.asString?
      code := ← Json.field? fields "code" Json.asWord?
      severity := ← Json.fieldOr? fields "severity" .error (Json.asName? Severity.ofName?)
      related := ← Json.fieldOr? fields "related" [] (Json.asList? RelatedPlace.ofJson?) }

/-- A list of diagnostics. -/
def ofJsonList? : Json → Option (List Diagnostic) := Json.asList? ofJson?

/-- The diagnostics in a text. -/
def parse? (text : String) : Option (List Diagnostic) := (Json.parse? text).bind ofJsonList?

end Diagnostic

end TypedTemplate
