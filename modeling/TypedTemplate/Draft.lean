/-
Drafts: generated code together with what it stands for. A draft is a list of pieces, so that drafts
compose by `++`; the code, the mapping tree, the issues and the directives are four readings of it.
Spans in a draft count from the start of the template, and are moved when the draft is read.
-/
import TypedTemplate.Directive
import TypedTemplate.Issue
import TypedTemplate.Mapping.Tree
import TypedTemplate.Template.Basic

namespace TypedTemplate

inductive Piece where
  /-- Code that no part of the template stands for alone. -/
  | text (code : String)
  /-- Code that stands for a span. Without any code the mark is left out with all in it, unless it is
  to be kept. -/
  | mark (label : Mapping.Label) (span : Span) (keepEmpty : Bool) (inside : List Piece)
  /-- Code in a block that binds `names`. -/
  | block (names : List String) (inside : List Piece)
  | issue (cause : IssueCause) (span : Span)
  /-- A directive and the span it applies to; without one it applies to everything. -/
  | directive (kind : DirectiveKind) (location : Span) (area : Option Span)
  deriving Repr

abbrev Draft := List Piece

namespace Draft

/-! ## Pieces -/

/-- A construct of the template. -/
def node (kind : String) (span : Span) (inside : Draft) : Draft :=
  [.mark (.node kind) span false inside]

/-- Code in a block with parameters. -/
def within (params : List Template.Name) (inside : Draft) : Draft :=
  [.block (params.map (·.text)) inside]

/-- A name of the template, written as `code`. -/
def name (code label : String) (span : Span) : Draft := [.mark (.name label) span true [.text code]]

/-- Drafts with code between them. -/
def separated (separator : String) : List Draft → Draft
  | [] => []
  | [d] => d
  | d :: ds => d ++ [.text separator] ++ separated separator ds

/-! ## Readings -/

mutual

/-- The generated code of a piece. -/
def codeOf : Piece → String
  | .text s => s
  | .mark _ _ _ inside => code inside
  | .block _ inside => code inside
  | .issue _ _ => ""
  | .directive _ _ _ => ""

/-- The generated code. -/
def code : List Piece → String
  | [] => ""
  | p :: ps => codeOf p ++ code ps

end

mutual

/-- The length of the generated code of a piece. -/
def lengthOf : Piece → Nat
  | .text s => Text.size s
  | .mark _ _ _ inside => size inside
  | .block _ inside => size inside
  | .issue _ _ => 0
  | .directive _ _ _ => 0

/-- The length of the generated code. -/
def size : List Piece → Nat
  | [] => 0
  | p :: ps => lengthOf p + size ps

end

mutual

/-- The mapping of a piece whose code starts at `start`, in a template that starts at `delta`. -/
def treesOf (delta start : Nat) : Piece → List Mapping.Tree
  | .mark label span keepEmpty inside =>
    let generated : Span := ⟨start, start + size inside⟩
    if keepEmpty || !generated.isEmpty then
      [.mk label (span.shift delta) generated (trees delta start inside)]
    else []
  | .block _ inside => trees delta start inside
  | _ => []

def trees (delta start : Nat) : List Piece → List Mapping.Tree
  | [] => []
  | p :: ps => treesOf delta start p ++ trees delta (start + lengthOf p) ps

end

mutual

/-- The issues of a piece, with their spans in the template. -/
def issuesOf : Piece → List (IssueCause × Span)
  | .issue cause span => [(cause, span)]
  | .mark _ _ _ inside => issues inside
  | .block _ inside => issues inside
  | _ => []

def issues : List Piece → List (IssueCause × Span)
  | [] => []
  | p :: ps => issuesOf p ++ issues ps

end

/-- A directive of a template, before it is known where the template stands. -/
structure LocalDirective where
  kind : DirectiveKind
  location : Span
  area : Option Span
  deriving Repr, DecidableEq

mutual

def directivesOf : Piece → List LocalDirective
  | .directive kind location area => [⟨kind, location, area⟩]
  | .mark _ _ _ inside => directives inside
  | .block _ inside => directives inside
  | _ => []

def directives : List Piece → List LocalDirective
  | [] => []
  | p :: ps => directivesOf p ++ directives ps

end

@[simp] theorem code_append (a b : Draft) : code (a ++ b) = code a ++ code b := by
  induction a with
  | nil => simp [code]
  | cons p ps ih => simp [code, ih, String.append_assoc]

@[simp] theorem size_append (a b : Draft) : size (a ++ b) = size a + size b := by
  induction a with
  | nil => simp [size]
  | cons p ps ih => simp [size, ih, Nat.add_assoc]

mutual

theorem lengthOf_eq : ∀ p : Piece, lengthOf p = Text.size (codeOf p)
  | .text _ => rfl
  | .mark _ _ _ inside => by simp [lengthOf, codeOf, size_eq inside]
  | .block _ inside => by simp [lengthOf, codeOf, size_eq inside]
  | .issue _ _ => by simp [lengthOf, codeOf, Text.size]
  | .directive _ _ _ => by simp [lengthOf, codeOf, Text.size]

/-- The length of a draft is that of its code. -/
theorem size_eq : ∀ d : List Piece, size d = Text.size (code d)
  | [] => by simp [size, code, Text.size]
  | p :: ps => by simp [size, code, lengthOf_eq p, size_eq ps]

end

theorem trees_append (delta start : Nat) (a b : Draft) :
    trees delta start (a ++ b) = trees delta start a ++ trees delta (start + size a) b := by
  induction a generalizing start with
  | nil => simp [trees, size]
  | cons p ps ih => simp [trees, ih, size, Nat.add_assoc]

@[simp] theorem issues_append (a b : Draft) : issues (a ++ b) = issues a ++ issues b := by
  induction a with
  | nil => rfl
  | cons p ps ih => simp [issues, ih]

@[simp] theorem directives_append (a b : Draft) :
    directives (a ++ b) = directives a ++ directives b := by
  induction a with
  | nil => rfl
  | cons p ps ih => simp [directives, ih]

end Draft

end TypedTemplate
