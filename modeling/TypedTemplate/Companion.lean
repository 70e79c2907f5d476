/-
Companions: which template file belongs to a script, and which script to a template file. A template
stands beside its script under the same name, or in the same directory under a name of its own, or in
a tree of templates apart; the last counts only if nothing stands beside the script.
-/
import TypedTemplate.Environment
import TypedTemplate.Path

namespace TypedTemplate.Companion

open Text

/-- A path that could be a companion: it is one if it exists and none of `deferTo` does. -/
structure Candidate where
  path : String
  deferTo : List String := []
  deriving Repr, DecidableEq, Inhabited

/-- A text before a suffix. -/
def dropSuffix? (text suffix : String) : Option String :=
  (stripEnd? suffix.toList text.toList).map String.ofList

/-- What stands before and after the first place where a directory occurs in a path, as its start or
after a separator. -/
def splitAround? (path dir : String) : Option (String × String) :=
  match stripStart? dir.toList path.toList with
  | some rest => some ("", String.ofList rest)
  | none =>
    (splitAtFirst ('/' :: dir.toList) path.toList).map fun (before, after) =>
      (String.ofList (before ++ ['/']), String.ofList after)

/-- The directories of scripts and of templates that stand apart from each other. -/
structure ClassicLayout where
  scripts : String
  templates : String

def ClassicLayout.of? (rules : CompanionRules) : Option ClassicLayout := do
  let templates ← rules.classicTemplatesDir
  let app ← Path.parent? templates
  some ⟨Path.join app "components" ++ "/", Path.join templates "components" ++ "/"⟩

/-- Where the template of a script could be, the preferred place first. -/
def templates (rules : CompanionRules) (script : String) : List Candidate :=
  match rules.scriptExtensions.findSome? (dropSuffix? script) with
  | none => []
  | some stem =>
    let colocated := stem ++ rules.templateExtension
    let pod :=
      if rules.podLayout && Path.fileStem? script == some "component" then
        (Path.parent? script).map fun dir =>
          { path := Path.join dir ("template" ++ rules.templateExtension) : Candidate }
      else none
    let classic := do
      let layout ← ClassicLayout.of? rules
      let (before, rest) ← splitAround? stem layout.scripts
      some (Candidate.mk (before ++ layout.templates ++ rest ++ rules.templateExtension) [colocated])
    ⟨colocated, []⟩ :: pod.toList ++ classic.toList

/-- Where the script of a template could be, the preferred place first. -/
def scripts (rules : CompanionRules) (template : String) : List Candidate :=
  match dropSuffix? template rules.templateExtension with
  | none => []
  | some stem =>
    let colocated := rules.scriptExtensions.map fun ext => Candidate.mk (stem ++ ext) []
    let pod :=
      if rules.podLayout && Path.fileStem? template == some "template" then
        match Path.parent? template with
        | some dir => rules.scriptExtensions.map fun ext =>
            Candidate.mk (Path.join dir ("component" ++ ext)) []
        | none => []
      else []
    let classic :=
      match ClassicLayout.of? rules with
      | none => []
      | some layout =>
        match splitAround? stem layout.templates with
        | none => []
        | some (before, rest) =>
          let beside := before ++ layout.scripts ++ rest
          rules.scriptExtensions.map fun ext =>
            Candidate.mk (beside ++ ext) [beside ++ rules.templateExtension]
    colocated ++ pod ++ classic

/-- The first candidate that is a companion, where `present` tells which files there are. -/
def choose (present : String → Bool) (candidates : List Candidate) : Option String :=
  (candidates.find? fun c => present c.path && !c.deferTo.any present).map (·.path)

/-- The template of a script. -/
def template? (rules : CompanionRules) (present : String → Bool) (script : String) : Option String :=
  choose present (templates rules script)

/-- The script of a template. -/
def script? (rules : CompanionRules) (present : String → Bool) (template : String) : Option String :=
  choose present (scripts rules template)

end TypedTemplate.Companion
