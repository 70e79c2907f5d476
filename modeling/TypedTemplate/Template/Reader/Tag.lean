/-
Opening tags: attributes with their values, modifiers, comments and block parameters.
-/
import TypedTemplate.Template.Reader.Curly

namespace TypedTemplate.Template.Reader

open Text

def attributeError {α : Type} (fault : AttributeFault) (span : Span) : Read α :=
  .error ⟨.invalidAttribute fault, span⟩

/-- The text between two places. -/
def runBetween (start stop : Cursor) : TextRun :=
  ⟨String.ofList (start.rest.take (start.rest.length - stop.rest.length)), ⟨start.pos, stop.pos⟩⟩

/-! ## Attribute values -/

/-- Whether plain text of a quoted value ends at a place. -/
def endsQuotedText (quote : Char) : List Char → Bool
  | [] => true
  | c :: rest => c == quote || (c == '{' && rest.head? == some '{')

/-- The number of characters of plain text in a quoted value. -/
def quotedTextLength (quote : Char) : List Char → Nat
  | [] => 0
  | c :: rest =>
    if endsQuotedText quote (c :: rest) then 0 else quotedTextLength quote rest + 1

/-- The parts of a quoted value and the place after its closing quote; `start` is its opening one. -/
def readQuotedParts (quote : Char) (start : Cursor) : Nat → Cursor → Read (List ConcatPart × Cursor)
  | 0, c => attributeError .unterminatedValue ⟨start.pos, c.pos⟩
  | fuel + 1, c => do
    let stop := c.advance (quotedTextLength quote c.rest)
    let text := if c.pos < stop.pos then [ConcatPart.text (runBetween c stop)] else []
    match stop.rest with
    | [] => attributeError .unterminatedValue ⟨start.pos, stop.pos⟩
    | d :: _ =>
      if d = quote then return (text, stop.advance 1)
      else
        if curlyAt stop ≠ .mustache then attributeError .blockInValue (curlySpan stop)
        let (m, after) ← readMustache stop
        let (parts, after) ← readQuotedParts quote start fuel after
        return (text ++ .mustache m :: parts, after)

def ConcatPart.isMustache : ConcatPart → Bool
  | .mustache _ => true
  | .text _ => false

/-- A value in quotes: parts if there is a mustache in it, else plain text without the quotes. -/
def readQuotedValue (quote : Char) (c : Cursor) : Read (AttrValue × Cursor) := do
  let (parts, after) ← readQuotedParts quote c (c.rest.length + 1) (c.advance 1)
  let span : Span := ⟨c.pos, after.pos⟩
  if parts.any ConcatPart.isMustache then return (.concat parts span, after)
  else
    let chars :=
      match parts with
      | [.text t] => t.chars
      | _ => ""
    return (.text ⟨chars, span⟩, after)

/-- A value without quotes; a slash that ends the tag does not belong to it. -/
def readBareValue (name : String) (c : Cursor) : Read (AttrValue × Cursor) :=
  let chars := c.rest.takeWhile fun d => !isBlank d && d != '>'
  let rest := c.rest.drop chars.length
  let chars :=
    match stripEnd? ['/'] chars, rest with
    | some shorter, '>' :: _ => shorter
    | _, _ => chars
  if chars.isEmpty then attributeError (.valueExpected name) (.empty c.pos)
  else
    let after := c.advance chars.length
    .ok (.text (runBetween c after), after)

def readValue (name : String) (c : Cursor) : Read (AttrValue × Cursor) := do
  match c.rest with
  | '"' :: _ => readQuotedValue '"' c
  | '\'' :: _ => readQuotedValue '\'' c
  | '{' :: '{' :: _ =>
    if curlyAt c ≠ .mustache then attributeError .notAMustache (curlySpan c)
    let (m, after) ← readMustache c
    return (.mustache m, after)
  | _ => readBareValue name c

/-- The characters of attribute names. -/
def isAttributeChar (c : Char) : Bool :=
  !isBlank c && c != '=' && c != '>' && c != '/' && c != '{'

/-- An attribute; without an equals sign its value is empty text at the end of its name. -/
def readAttribute (c : Cursor) : Read (Attribute × Cursor) := do
  let after := c.skipWhile isAttributeChar
  let name : Name := ⟨c.run isAttributeChar, ⟨c.pos, after.pos⟩⟩
  if name.text.isEmpty then
    attributeError (.nameExpected c.rest.head?) ⟨c.pos, c.pos + 1⟩
  let sign := after.skipWhile isBlank
  if sign.startsWith "=" then
    let (value, stop) ← readValue name.text ((sign.advance 1).skipWhile isBlank)
    return (⟨name, value, ⟨c.pos, stop.pos⟩⟩, stop)
  else
    return (⟨name, .text ⟨"", .empty after.pos⟩, name.span⟩, after)

/-! ## Block parameters -/

/-- Whether block parameters start here. -/
def startsParams (rest : List Char) : Bool :=
  match stripStart? "as".toList rest with
  | some after => (trimStart after).head? == some '|'
  | none => false

/-- The characters of the names of block parameters. -/
def isParamChar (c : Char) : Bool := !isBlank c && c != '|' && c != '>'

/-- The names up to the bar that closes block parameters; `start` is where they started. -/
def readTagParamNames (start : Nat) : Nat → Cursor → Read (List Name × Cursor)
  | 0, c => layoutError .unclosedParams ⟨start, c.pos⟩
  | fuel + 1, c => do
    let c := c.skipWhile isBlank
    match c.rest with
    | [] => layoutError .unclosedParams ⟨start, c.pos⟩
    | '|' :: _ => return ([], c.advance 1)
    | _ =>
      let after := c.skipWhile isParamChar
      let name := c.run isParamChar
      if name.isEmpty then layoutError .paramExpected ⟨c.pos, c.pos + 1⟩
      let (names, stop) ← readTagParamNames start fuel after
      return (⟨name, ⟨c.pos, after.pos⟩⟩ :: names, stop)

/-- Block parameters of an element, from their `as` on. -/
def readTagParams (c : Cursor) : Read (List Name × Cursor) := do
  let bar := (c.advance 2).skipWhile isBlank
  let (names, after) ← readTagParamNames c.pos (c.rest.length + 1) (bar.advance 1)
  if names.isEmpty then layoutError .noParams ⟨c.pos, after.pos⟩
  return (names, after)

/-! ## The whole tag -/

/-- What an opening tag holds after its name. Of several lists of block parameters the last counts. -/
structure TagContents where
  attributes : List Attribute := []
  modifiers : List Call := []
  comments : List Comment := []
  params : Option (List Name) := none
  selfClosing : Bool := false

/-- What stands in an opening tag, up to and with the bracket that ends it; `unclosed` is the error of
a tag that does not end. -/
def readTagContents (unclosed : ParseError) : Nat → Cursor → Read (TagContents × Cursor)
  | 0, _ => .error unclosed
  | fuel + 1, c => do
    let c := c.skipWhile isBlank
    match c.rest with
    | [] => .error unclosed
    | '/' :: '>' :: _ => return ({ selfClosing := true }, c.advance 2)
    | '>' :: _ => return ({}, c.advance 1)
    | '{' :: '{' :: _ =>
      match curlyAt c with
      | .comment =>
        let (comment, after) ← readMustacheComment c
        let (more, stop) ← readTagContents unclosed fuel after
        return ({ more with comments := comment :: more.comments }, stop)
      | .mustache =>
        let (m, after) ← readMustache c
        let (more, stop) ← readTagContents unclosed fuel after
        return ({ more with modifiers := m.call :: more.modifiers }, stop)
      | _ => layoutError .blockInOpenTag (curlySpan c)
    | _ =>
      if startsParams c.rest then
        let (names, after) ← readTagParams c
        let (more, stop) ← readTagContents unclosed fuel after
        return ({ more with params := more.params <|> some names }, stop)
      else
        let (attr, after) ← readAttribute c
        let (more, stop) ← readTagContents unclosed fuel after
        return ({ more with attributes := attr :: more.attributes }, stop)

end TypedTemplate.Template.Reader
