/-
Why a text is no template: the causes, each with its wording, and the span that shows it.
-/
import TypedTemplate.Template.Token

namespace TypedTemplate.Template

/-- What is wrong with an attribute. -/
inductive AttributeFault where
  | nameExpected (found : Option Char)
  | valueExpected (name : String)
  | unterminatedValue
  /-- An unquoted value in braces that is no mustache. -/
  | notAMustache
  /-- Braces in a quoted value that are no mustache. -/
  | blockInValue
  deriving Repr, DecidableEq, Inhabited

/-- What is wrong with a path. -/
inductive PathFault where
  | argumentNameExpected
  | segmentExpected
  deriving Repr, DecidableEq, Inhabited

/-- What is wrong with the way mustaches, blocks and parameters stand together. -/
inductive LayoutFault where
  | elseOutsideBlock
  | closeOutsideBlock
  | blockInOpenTag
  | paramsOutsideBlock
  | blockNeedsPath
  | closeNeedsPath
  | secondElse (name : String)
  | positionalAfterNamed
  | noParams
  | unclosedParams
  | paramExpected
  deriving Repr, DecidableEq, Inhabited

/-- What is looked for where something else stands. -/
inductive Expected where
  | token (kind : TokenKind)
  | expression
  | blockParam
  | tagEnd
  deriving Repr, DecidableEq, Inhabited

/-- What stands where something else is looked for. -/
inductive Found where
  | token (kind : TokenKind)
  | char (c : Option Char)
  deriving Repr, DecidableEq, Inhabited

inductive ParseFault where
  | unexpectedToken (expected : Expected) (found : Found)
  | unexpectedEnd (expected : Expected)
  | unclosedElement (tag : String)
  | mismatchedClosingTag (expected found : String)
  | unexpectedClosingTag (tag : String)
  | unclosedBlock (name : String)
  | mismatchedBlockClose (expected found : String)
  | unclosedComment
  | invalidAttribute (fault : AttributeFault)
  | invalidPath (fault : PathFault)
  | malformed (fault : LayoutFault)
  deriving Repr, DecidableEq, Inhabited

structure ParseError where
  fault : ParseFault
  span : Span
  deriving Repr, DecidableEq, Inhabited

/-! ## Wording -/

/-- A character as messages quote it. -/
def describeChar : Option Char → String
  | some c => "`" ++ String.singleton c ++ "`"
  | none => "end of template"

def AttributeFault.message : AttributeFault → String
  | .nameExpected found => "expected an attribute name, found " ++ describeChar found
  | .valueExpected name => "expected a value for `" ++ name ++ "`"
  | .unterminatedValue => "unterminated attribute value"
  | .notAMustache => "attribute values must be a single mustache"
  | .blockInValue => "only mustaches may appear inside attribute values"

def PathFault.message : PathFault → String
  | .argumentNameExpected => "expected an argument name after `@`"
  | .segmentExpected => "expected a name after `.`"

def LayoutFault.message : LayoutFault → String
  | .elseOutsideBlock => "\x7b\x7belse\x7d\x7d can only appear inside a block"
  | .closeOutsideBlock => "Closing block without an open block"
  | .blockInOpenTag => "Blocks are not allowed inside an element's opening tag"
  | .paramsOutsideBlock => "Block params are only allowed on block statements"
  | .blockNeedsPath => "A block must be invoked through a path"
  | .closeNeedsPath => "A closing block must name a path"
  | .secondElse name =>
    "\x7b\x7b#" ++ name ++ "\x7d\x7d cannot have more than one \x7b\x7belse\x7d\x7d block"
  | .positionalAfterNamed => "Positional arguments must come before named arguments"
  | .noParams => "Block params must declare at least one name"
  | .unclosedParams => "Unclosed block params"
  | .paramExpected => "Expected a block param name or `|`"

def Expected.describe : Expected → String
  | .token kind => kind.describe
  | .expression => "an expression"
  | .blockParam => "a block param name or `|`"
  | .tagEnd => "`>`"

def Found.describe : Found → String
  | .token kind => kind.describe
  | .char c => describeChar c

def ParseFault.message : ParseFault → String
  | .unexpectedToken expected found =>
    "Expected " ++ expected.describe ++ ", found " ++ found.describe
  | .unexpectedEnd expected => "Unexpected end of template, expected " ++ expected.describe
  | .unclosedElement tag => "Unclosed element `" ++ tag ++ "`"
  | .mismatchedClosingTag expected found =>
    "Closing tag </" ++ found ++ "> did not match last open tag <" ++ expected ++ ">"
  | .unexpectedClosingTag tag => "Closing tag </" ++ tag ++ "> without an open tag"
  | .unclosedBlock name => "Unclosed block \x7b\x7b#" ++ name ++ "\x7d\x7d"
  | .mismatchedBlockClose expected found => expected ++ " doesn't match " ++ found
  | .unclosedComment => "Unclosed comment"
  | .invalidAttribute fault => "Invalid attribute: " ++ fault.message
  | .invalidPath fault => "Invalid path: " ++ fault.message
  | .malformed fault => fault.message

def ParseError.message (e : ParseError) : String := e.fault.message

end TypedTemplate.Template
