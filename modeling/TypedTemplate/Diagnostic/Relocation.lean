/-
From diagnostics about generated code to diagnostics about the files it comes from. A diagnostic that
a directive covers is dropped and counted there; a directive that expects an error and covers none is
reported itself.
-/
import TypedTemplate.Diagnostic.Basic
import TypedTemplate.Module.Position

namespace TypedTemplate

/-! ## Modules by file -/

namespace Module

/-- The first module of a file. -/
def find? (modules : List Module) (file : String) : Option Module :=
  modules.find? fun m => Path.same m.file file

/-- A module in place of the one of its file, or at the end. -/
def put (modules : List Module) (m : Module) : List Module :=
  if modules.any fun n => Path.same n.file m.file then
    modules.map fun n => if Path.same n.file m.file then m else n
  else modules ++ [m]

/-- One module for each file, the last one, in the order of files. -/
def catalog (modules : List Module) : List Module :=
  (modules.foldl put []).mergeSort fun a b => !Path.less b.file a.file

/-- The file and the span that a span of code stands for, if it lies in the code. One that ends in
another file than it starts in shrinks to its start. -/
def locate? (m : Module) (range : Span) : Except PositionFault (Option (String × Span)) :=
  match m.toSource? range.start, m.toSource? range.stop with
  | some (file, _), some (stopFile, _) =>
    m.toSourceRange? range.start (if Path.same file stopFile then range.stop else range.start)
  | _, _ => .ok none

end Module

/-! ## Relocation -/

namespace RelatedPlace

def relocate (modules : List Module) (r : RelatedPlace) : Except PositionFault RelatedPlace := do
  let some m := Module.find? modules r.file | return r
  let some (file, place) := ← m.locate? r.span | return r
  return { r with file, start := place.start, length := place.length }

end RelatedPlace

namespace Diagnostic

/-- A diagnostic about the code of a module, at the place that its code stands for. -/
def relocate (modules : List Module) (m : Module) (d : Diagnostic) :
    Except PositionFault Diagnostic := do
  let related ← d.related.mapM (·.relocate modules)
  match ← m.locate? d.span with
  | some (file, place) =>
    return { d with file, start := place.start, length := place.length, related }
  | none => return { d with related }

end Diagnostic

/-- Whether a directive covers a diagnostic about a file. -/
def Directive.covers (directive : Directive) (d : Diagnostic) : Bool :=
  Path.same directive.file d.file && directive.area.intersects d.span

/-- Counts a diagnostic for the first directive that covers it, if there is one. -/
def Directive.countFirst? (d : Diagnostic) : List Directive → Option (List Directive)
  | [] => none
  | directive :: rest =>
    if directive.covers d then
      some ({ directive with matchCount := directive.matchCount + 1 } :: rest)
    else (countFirst? d rest).map (directive :: ·)

/-! ## The directives of a run -/

/-- Directives by file, with what they have covered so far counted. -/
abbrev Tally := List (String × List Directive)

namespace Tally

/-- The directives of modules; of two modules of one file the last one counts. -/
def ofModules (modules : List Module) : Tally :=
  (modules.foldl Module.put []).map fun m => (m.file, m.directives)

/-- The directives of a file. -/
def get (t : Tally) (file : String) : List Directive :=
  ((t.find? fun entry => Path.same entry.1 file).map (·.2)).getD []

/-- Other directives in place of those of a file. -/
def set (t : Tally) (file : String) (directives : List Directive) : Tally :=
  t.map fun entry => if Path.same entry.1 file then (entry.1, directives) else entry

def remove (t : Tally) (file : String) : Tally := t.filter fun entry => !Path.same entry.1 file

/-- The directives of modules one after another, each file's once. -/
def drain (t : Tally) : List Module → List Directive
  | [] => []
  | m :: ms => t.get m.file ++ drain (t.remove m.file) ms

end Tally

/-! ## The run -/

/-- Diagnostics at their places, and the directives with what they cover counted. -/
structure Relocated where
  diagnostics : List Diagnostic
  directives : List Directive

namespace Relocated

/-- How far a run has come: the diagnostics that it keeps, the last one first, and the directives. -/
structure Progress where
  kept : List Diagnostic := []
  tally : Tally

/-- One turn of a run. A diagnostic of a file without a module is kept as it is; one of a module is put
at its place, and is counted there by the first directive of the module that covers it, or kept. -/
def turn (modules : List Module) (s : Progress) (d : Diagnostic) : Except PositionFault Progress :=
  match Module.find? modules d.file with
  | none => .ok { s with kept := d :: s.kept }
  | some m => do
    let placed ← d.relocate modules m
    match Directive.countFirst? placed (s.tally.get m.file) with
    | some counted => return { s with tally := s.tally.set m.file counted }
    | none => return { s with kept := placed :: s.kept }

/-- Relocates the diagnostics about the code of modules. Directives that expect an error and have counted
none are reported after what is kept. -/
def ofDiagnostics (modules : List Module) (diagnostics : List Diagnostic) :
    Except PositionFault Relocated := do
  let s ← diagnostics.foldlM (turn modules) { tally := .ofModules modules }
  let directives := s.tally.drain modules
  let unused := directives.filter fun d => d.kind = .expectError ∧ d.matchCount = 0
  return { diagnostics := s.kept.reverse ++ unused.map .unused, directives }

end Relocated

end TypedTemplate
