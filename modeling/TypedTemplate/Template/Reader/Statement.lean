/-
Statements: runs of text, comments, mustaches, blocks with their arms, and elements with their
children, and with them whole templates.
-/
import TypedTemplate.Template.Reader.Tag

namespace TypedTemplate.Template.Reader

open Text

/-- Where a list of statements stands, which decides what ends it. -/
inductive Place where
  | root
  | element
  | block
  deriving Repr, DecidableEq, Inhabited

/-! ## Text -/

/-- The characters a tag can start with. -/
def isTagStart (c : Char) : Bool := c.isAlpha || c == '@' || c == ':' || c == '_'

/-- Whether an element starts here. -/
def startsElement : List Char → Bool
  | '<' :: c :: _ => isTagStart c
  | _ => false

/-- Whether a run of text ends before these characters. -/
def endsText (cs : List Char) : Bool :=
  "\x7b\x7b".toList.isPrefixOf cs || "</".toList.isPrefixOf cs || "<!--".toList.isPrefixOf cs ||
    startsElement cs

/-- The number of characters up to the end of a run of text. A backslash before two opening braces
makes them text. -/
def textLength : List Char → Nat
  | [] => 0
  | '\\' :: '{' :: '{' :: rest => textLength rest + 3
  | c :: rest => if endsText (c :: rest) then 0 else textLength rest + 1

/-- A run of text, one character at least. -/
def readText (c : Cursor) : TextRun × Cursor :=
  let after := c.advance (max 1 (textLength c.rest))
  (runBetween c after, after)

/-! ## Blocks -/

/-- Reads the statements at a place. -/
abbrev ReadChildren := Place → Cursor → Read (List Statement × Cursor)

/-- The name in the braces that close a block, and its span. -/
def readBlockClose (c : Cursor) : Read ((String × Span) × Cursor) := do
  let (_, after) ← expect .slash (skip .tilde (c.advance 2))
  let (value, after) ← readExpr after
  match value with
  | .path path =>
    let stop ← expectClose false (skip .tilde after)
    return ((path.written, path.span), stop)
  | other => layoutError .closeNeedsPath other.span

/-- The braces that close `name`. -/
def readClosing (name : String) (c : Cursor) : Read (Span × Cursor) := do
  let ((found, span), after) ← readBlockClose c
  if found ≠ name then .error ⟨.mismatchedBlockClose name found, span⟩
  return (span, after)

/-- What follows the opening braces of a block: its arms, but not what closes it. `start` is where the
opening braces began, and `name` is the block that a closing has to name. A block that an `else` opens
ends where the block around it does. -/
def readArms (children : ReadChildren) (name : String) :
    Nat → Nat → Invocation → Cursor → Read (Block × Cursor)
  | 0, start, _, c => .error ⟨.unclosedBlock name, ⟨start, c.pos⟩⟩
  | fuel + 1, start, invocation, c => do
    let unclosed : ParseError := ⟨.unclosedBlock name, ⟨start, c.pos⟩⟩
    let (body, after) ← children .block c
    if after.atEnd then .error unclosed
    let program : Arm := ⟨body, invocation.args.blockParams, false, ⟨c.pos, after.pos⟩⟩
    let block (inverse : Option Arm) (stop : Cursor) : Block × Cursor :=
      let span : Span := ⟨start, stop.pos⟩
      (⟨invocation.call span, program, inverse, none, span⟩, stop)
    if curlyAt after ≠ .otherwise then return block none after
    let inside := (Lexer.next (skip .tilde (after.advance 2))).after
    let following := (Lexer.peek inside).kind
    if following = .close ∨ following = .tilde then
      let opened ← expectClose false (skip .tilde inside)
      let (body, stop) ← children .block opened
      if stop.atEnd then .error unclosed
      if curlyAt stop = .otherwise then layoutError (.secondElse name) (curlySpan stop)
      return block (some ⟨body, [], false, ⟨opened.pos, stop.pos⟩⟩) stop
    else
      let (chained, opened) ← readInvocationAt inside
      let opened ← expectClose false (skip .tilde opened)
      let (nested, stop) ← readArms children name fuel after.pos chained opened
      return block (some ⟨[.block nested], [], true, ⟨after.pos, stop.pos⟩⟩) stop

/-- A block with what closes it. -/
def readBlock (children : ReadChildren) (c : Cursor) : Read (Block × Cursor) := do
  let (_, inside) ← expect .hash (skip .tilde (c.advance 2))
  let (invocation, after) ← readInvocationAt inside
  let opened ← expectClose false (skip .tilde after)
  match invocation.callee with
  | .path path =>
    let (block, closing) ← readArms children path.written (c.rest.length + 1) c.pos invocation opened
    let (span, stop) ← readClosing path.written closing
    let whole : Span := ⟨c.pos, stop.pos⟩
    return ({ block with call := invocation.call whole, closeSpan := some span, span := whole }, stop)
  | other => layoutError .blockNeedsPath other.span

/-! ## Elements -/

/-- The elements that have neither children nor a closing tag. -/
def voidTags : List String :=
  ["area", "base", "br", "col", "command", "embed", "hr", "img", "input", "keygen", "link", "meta",
    "param", "source", "track", "wbr"]

/-- The characters of the tag of an element that opens. -/
def isTagChar (c : Char) : Bool := !isBlank c && c != '>' && c != '/'

/-- The characters of the tag of an element that closes. -/
def isCloseTagChar (c : Char) : Bool := !isBlank c && c != '>'

/-- The closing tag of an element. -/
def readCloseTag (tag : String) (c : Cursor) : Read (Span × Cursor) := do
  let named := c.advance 2
  let found := named.run isCloseTagChar
  let after := named.skipWhile isCloseTagChar
  let bracket := after.skipWhile isBlank
  if !bracket.startsWith ">" then
    .error ⟨.unexpectedToken .tagEnd (.char bracket.rest.head?), .empty bracket.pos⟩
  let span : Span := ⟨named.pos, after.pos⟩
  if found ≠ tag then .error ⟨.mismatchedClosingTag tag found, span⟩
  return (span, bracket.advance 1)

def readElement (children : ReadChildren) (c : Cursor) : Read (Element × Cursor) := do
  let named := c.advance 1
  let after := named.skipWhile isTagChar
  let tag : Name := ⟨named.run isTagChar, ⟨named.pos, after.pos⟩⟩
  let (contents, opened) ←
    readTagContents ⟨.unclosedElement tag.text, ⟨c.pos, after.pos⟩⟩ (c.rest.length + 1) after
  let element (body : List Statement) (closeTag : Option Span) (stop : Cursor) : Element × Cursor :=
    (⟨tag, contents.attributes, contents.modifiers, contents.comments, contents.params.getD [], body,
      contents.selfClosing, closeTag, ⟨c.pos, stop.pos⟩⟩, stop)
  if contents.selfClosing || voidTags.contains tag.text then return element [] none opened
  let (body, closing) ← children .element opened
  if closing.atEnd then .error ⟨.unclosedElement tag.text, ⟨c.pos, opened.pos⟩⟩
  let (span, stop) ← readCloseTag tag.text closing
  return element body (some span) stop

/-! ## Statements -/

/-- A closing tag without an element that it could close. -/
def strayCloseTag (c : Cursor) : ParseError :=
  let named := c.advance 2
  let after := named.skipWhile isCloseTagChar
  ⟨.unexpectedClosingTag (named.run isCloseTagChar), ⟨c.pos, after.pos⟩⟩

/-- The statement that braces begin, or none if they end the list. -/
def readCurly (children : ReadChildren) (place : Place) (c : Cursor) :
    Read (Option (Statement × Cursor)) := do
  match curlyAt c with
  | .comment =>
    let (comment, after) ← readMustacheComment c
    return some (.mustacheComment comment, after)
  | .blockOpen =>
    let (block, after) ← readBlock children c
    return some (.block block, after)
  | .mustache =>
    let (m, after) ← readMustache c
    return some (.mustache m, after)
  | .otherwise =>
    if place = .block then return none
    layoutError .elseOutsideBlock (curlySpan c)
  | .blockClose =>
    if place = .block then return none
    layoutError .closeOutsideBlock (curlySpan c)

/-- The next statement of a list, or none at what ends the list. -/
def readStatement (children : ReadChildren) (place : Place) (c : Cursor) :
    Read (Option (Statement × Cursor)) := do
  if c.startsWith "</" then
    if place = .element then return none
    .error (strayCloseTag c)
  else if c.startsWith "<!--" then
    let (comment, after) ← readComment c
    return some (.comment comment, after)
  else if startsElement c.rest then
    let (element, after) ← readElement children c
    return some (.element element, after)
  else if c.startsWith "\x7b\x7b" then readCurly children place c
  else
    let (text, after) := readText c
    return some (.text text, after)

/-- The statements at a place, up to what ends their list; `fuel` is at least the number of characters
left. -/
def readStatements : Nat → ReadChildren
  | 0, _, c => .ok ([], c)
  | fuel + 1, place, c =>
    if c.atEnd then .ok ([], c)
    else do
      match ← readStatement (readStatements fuel) place c with
      | none => return ([], c)
      | some (statement, after) =>
        let (statements, stop) ← readStatements fuel place after
        return (statement :: statements, stop)

end Reader

/-- Reads a template. -/
def parse (source : String) : Except ParseError Template := do
  let (body, _) ← Reader.readStatements source.length .root (.ofText source)
  return ⟨body, .ofText source⟩

end TypedTemplate.Template
