/-
Class heads: whether the text before an opening brace announces the body of a class.
-/
import TypedTemplate.Text.Blank
import TypedTemplate.Text.Measure
import TypedTemplate.Text.Word

namespace TypedTemplate.Script

open Text

/-- The characters of names in a script. -/
def isNameChar (c : Char) : Bool := isWord c || c == '$'

/-- Whether white space comes first. -/
def startsBlank (cs : List Char) : Bool := cs.head?.any isBlank

/-- Whether a text is the word `extends`, white space and something more. -/
def isHeritage (cs : List Char) : Bool :=
  match stripStart? "extends".toList cs with
  | some rest => startsBlank rest && 1 < rest.length
  | none => false

/-- What can stand between the word `class` and the body: a name, and what the class extends, each
after white space and each optional. -/
def isClassTail (cs : List Char) : Bool :=
  let rest := trimStart cs
  let afterName := rest.dropWhile isNameChar
  rest.isEmpty ||
    (startsBlank cs &&
      (isHeritage rest ||
        (startsNamed rest &&
          (afterName.all isBlank || (startsBlank afterName && isHeritage (trimStart afterName))))))
where
  /-- Whether a name comes first. -/
  startsNamed (cs : List Char) : Bool := cs.head?.any isNameChar

/-- Whether a text ends in a class head. The word `class` must not be the end of a longer name or a
property; `joined` says that what precedes the text forbids it at its start. -/
def endsInClassHead (joined : Bool) : List Char → Bool
  | [] => false
  | c :: cs =>
    (!joined &&
      match stripStart? "class".toList (c :: cs) with
      | some rest => isClassTail rest
      | none => false) ||
    endsInClassHead (isNameChar c || c == '.') cs

/-- Whether a text ends in a class head. -/
def isClassHead (cs : List Char) : Bool := endsInClassHead false cs

end TypedTemplate.Script
