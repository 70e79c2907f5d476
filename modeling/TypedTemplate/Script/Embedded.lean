/-
What a script says that matters to the templates in it: the literals with a tag, what it imports, and
the class it exports by default.
-/
import TypedTemplate.Span

namespace TypedTemplate.Script

/-- Tagged literals as they nest. The tag of a literal is a name; `tagStop` is where it ends. -/
inductive Embedded where
  /-- A literal with its extent, and the literals in its expressions. -/
  | tagged (tag : String) (tagStop : Nat) (range : Span) (interpolated : Bool)
      (inside : List Embedded)
  /-- A literal that is the whole value of a static property, between the literals in the property's
  key and those in its decorators. -/
  | staticValue (key : List Embedded) (value : Embedded) (decorators : List Embedded)
  deriving Repr

/-- A name that a module imports: what the other module calls it, and what it is called here. -/
structure ImportedName where
  source : String
  exported : String
  localName : String
  deriving Repr, DecidableEq, Inhabited

/-- A part of a module that other parts refer to. -/
inductive Item where
  | imports (names : List ImportedName)
  /-- A class that is exported by default, by the place of its closing brace. -/
  | defaultClass (close : Nat)
  /-- A name that is exported by default. -/
  | defaultName (name : String)
  /-- A class with a name, by the place of its closing brace. -/
  | namedClass (name : String) (close : Nat)
  deriving Repr, DecidableEq

/-- A module as far as templates are concerned. -/
structure Outline where
  embedded : List Embedded
  items : List Item
  deriving Repr

namespace Outline

def imports (o : Outline) : List ImportedName :=
  o.items.flatMap fun
    | .imports names => names
    | _ => []

/-- The place of the closing brace of the class that is exported by default, itself or by the last
name that is. -/
def defaultClassClose? (o : Outline) : Option Nat :=
  let direct := o.items.findSome? fun
    | .defaultClass close => some close
    | _ => none
  let byName := o.items.reverse.findSome? fun
    | .defaultName name => some name
    | _ => none
  match direct with
  | some close => some close
  | none => byName.bind fun name =>
    o.items.findSome? fun
      | .namedClass other close => if other = name then some close else none
      | _ => none

end Outline

end TypedTemplate.Script

namespace TypedTemplate

/-- How scripts are read: what a text says as a script, or nothing if it is none. -/
abbrev ScriptReader := String → Option Script.Outline

end TypedTemplate
