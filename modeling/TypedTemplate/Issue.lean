/-
Issues: what is wrong with a template that compiles to something all the same.
-/
import TypedTemplate.Template.Error

namespace TypedTemplate

/-- The families of issues. -/
inductive IssueKind where
  | templateSyntax
  | semanticForm
  | directive
  | structural
  deriving Repr, DecidableEq, Inhabited

def IssueKind.code : IssueKind → String
  | .templateSyntax => "template-syntax"
  | .semanticForm => "semantic-form"
  | .directive => "directive"
  | .structural => "structural"

/-- Which rule the use of a special form breaks. -/
inductive FormFault where
  | fewerThanTwo
  | notExactlyTwo
  | notExactlyOne
  | notTopLevel
  | positionalArgument
  | namedArgument
  | nothingToBind
  | mixedBinding
  | asBlock
  | asModifier
  | notOneCondition
  | computedBlockName
  deriving Repr, DecidableEq, Inhabited

/-- A callee as messages quote it, in braces and after `mark`. -/
def inBraces (mark name : String) : String := "\x7b\x7b" ++ mark ++ name ++ "\x7d\x7d"

def FormFault.message (name : String) : FormFault → String
  | .fewerThanTwo => inBraces "" name ++ " requires at least two parameters"
  | .notExactlyTwo => inBraces "" name ++ " requires exactly two parameters"
  | .notExactlyOne => inBraces "" name ++ " requires exactly one parameter"
  | .notTopLevel => inBraces "" name ++ " may only appear as a top-level statement"
  | .positionalArgument => inBraces "" name ++ " only accepts named parameters"
  | .namedArgument => inBraces "" name ++ " only accepts positional parameters"
  | .nothingToBind => inBraces "" name ++ " requires at least one positional argument"
  | .mixedBinding =>
    inBraces "" name ++
      " can only pre-bind either named or positional arguments in a single pass"
  | .asBlock => inBraces "#" name ++ " is not valid as a block"
  | .asModifier => inBraces "" name ++ " is not valid as a modifier"
  | .notOneCondition => inBraces "#" name ++ " requires exactly one condition"
  | .computedBlockName => "Named block " ++ inBraces "" name ++ "s must have a literal block name"

inductive IssueCause where
  /-- The text is no template. -/
  | unreadable (fault : Template.ParseFault)
  /-- A template in a script holds expressions of the script. -/
  | interpolated
  | form (name : String) (fault : FormFault)
  | unknownDirective (keyword : String)
  | strayNamedBlock
  | mixedNamedBlocks
  | invalidParam (name : String)
  | splattributesValue
  deriving Repr, DecidableEq, Inhabited

namespace IssueCause

def kind : IssueCause → IssueKind
  | .unreadable _ | .interpolated => .templateSyntax
  | .form _ _ => .semanticForm
  | .unknownDirective _ => .directive
  | .strayNamedBlock | .mixedNamedBlocks | .invalidParam _ | .splattributesValue => .structural

def message : IssueCause → String
  | .unreadable fault => fault.message
  | .interpolated => "Templates with interpolations are not supported"
  | .form name fault => fault.message name
  | .unknownDirective keyword => "Unknown directive @glint-" ++ keyword
  | .strayNamedBlock => "Named blocks are only valid as direct children of a component invocation"
  | .mixedNamedBlocks => "Named blocks may not be mixed with other content"
  | .invalidParam name => "Invalid block param name \"" ++ name ++ "\""
  | .splattributesValue => "...attributes cannot accept a value"

end IssueCause

/-- What is wrong, in which file and where. -/
structure Issue where
  cause : IssueCause
  file : String
  location : Span
  deriving Repr, DecidableEq, Inhabited

namespace Issue

def kind (i : Issue) : IssueKind := i.cause.kind

def message (i : Issue) : String := i.cause.message

def shift (i : Issue) (delta : Nat) : Issue := { i with location := i.location.shift delta }

end Issue

end TypedTemplate
