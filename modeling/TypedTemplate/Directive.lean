/-
Directives: comments that tell the checker to keep silent about a stretch of a template.
-/
import TypedTemplate.Span
import TypedTemplate.Text.Blank

namespace TypedTemplate

/-- What a directive does to the diagnostics in its area. -/
inductive DirectiveKind where
  /-- They are dropped. -/
  | ignore
  /-- They are dropped, and it is an error if there are none. -/
  | expectError
  /-- All diagnostics of the template are dropped. -/
  | noCheck
  deriving Repr, DecidableEq, Inhabited

namespace DirectiveKind

def keyword : DirectiveKind → String
  | .ignore => "ignore"
  | .expectError => "expect-error"
  | .noCheck => "nocheck"

def ofKeyword? : String → Option DirectiveKind
  | "ignore" => some .ignore
  | "expect-error" => some .expectError
  | "nocheck" => some .noCheck
  | _ => none

end DirectiveKind

/-- A directive of a file, where it stands, the stretch it applies to, and how many diagnostics it has
met there. -/
structure Directive where
  kind : DirectiveKind
  file : String
  location : Span
  area : Span
  matchCount : Nat := 0
  deriving Repr, DecidableEq, Inhabited

def Directive.shift (d : Directive) (delta : Nat) : Directive :=
  { d with location := d.location.shift delta, area := d.area.shift delta }

/-- What the text of a comment says. -/
inductive Recognized where
  | directive (kind : DirectiveKind)
  /-- Written like a directive, with a keyword that is none. -/
  | unknown (keyword : String)
  | remark
  deriving Repr, DecidableEq, Inhabited

/-- Reads a comment: white space around it does not count, and what follows the keyword after white
space or a colon is free. -/
def Recognized.ofComment (comment : String) : Recognized :=
  match Text.stripStart? "@glint-".toList (Text.trim comment).toList with
  | none => .remark
  | some rest =>
    let keyword := String.ofList (rest.takeWhile fun c => !Text.isBlank c && c != ':')
    match DirectiveKind.ofKeyword? keyword with
    | some kind => .directive kind
    | none => .unknown keyword

end TypedTemplate
