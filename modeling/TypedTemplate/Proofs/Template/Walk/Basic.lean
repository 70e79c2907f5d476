/-
Reading templates as a walk over bytes. A place is a byte position. Text is looked at in slices, and a slice that leaves
the text or cuts a character is a fault; a position is moved on by numbers of bytes, whatever stands there, and plain
text is passed over byte by byte. Loops and readers that nest take a bound, and a bound that is spent is a fault, too.

That no such fault occurs, and that the walk reads what is read by characters, is shown in the modules beside this one.
-/
import TypedTemplate.Proofs.Text.Bytes
import TypedTemplate.Template.Reader.Statement

namespace TypedTemplate.Template.Walk

open Text Lexer Reader

/-- Why a walk stops. -/
inductive Halt where
  /-- The text is no template. -/
  | refused (e : ParseError)
  /-- A slice that leaves the text or cuts a character. -/
  | slice
  /-- A loop that goes on after its last turn. -/
  | spent
  deriving Repr, DecidableEq

abbrev Answer := Except Halt

def refuse {α : Type} (e : ParseError) : Answer α := .error (.refused e)

/-- What a reading by characters answers, with another form for what it read. -/
def carry {α β : Type} (f : α → β) : Read α → Answer β
  | .ok a => .ok (f a)
  | .error e => refuse e

/-! ## Slices -/

/-- The text between two positions. -/
def cut (text : String) (start stop : Nat) : Answer String := ((slice text start stop).map .ok).getD (.error .slice)

section

variable (source : String)

/-- What follows a position. -/
def look (p : Nat) : Answer Cursor := ((Cursor.at? source p).map .ok).getD (.error .slice)

/-- The number of turns that a loop is given. -/
def bound : Nat := size source + 1

def skipBlank (p : Nat) : Answer Nat := do
  let c ← look source p
  return p + (byteLength c.rest - byteLength (trimStart c.rest))

/-- The run of characters that satisfy `p`, and the position after it. -/
def takeRun (p : Char → Bool) (start : Nat) : Answer (String × Nat) := do
  let c ← look source start
  let stop := start + byteLength (c.rest.takeWhile p)
  return (← cut source start stop, stop)

/-! ## Tokens -/

/-- The token that a lexer finds from a position on. -/
def lex (p : Nat) : Answer Token := return peek (← look source p)

def textOf (t : Token) : Answer String := cut source t.span.start t.span.stop

def nameOf (t : Token) : Answer Name := return ⟨← textOf source t, t.span⟩

def expect (kind : TokenKind) (p : Nat) : Answer (Token × Nat) := do
  let t ← lex source p
  if t.kind = kind then return (t, t.span.stop) else refuse (unexpected (.token kind) t)

def skip (kind : TokenKind) (p : Nat) : Answer Nat := do
  let t ← lex source p
  return if t.kind = kind then t.span.stop else p

def expectClose (trusting : Bool) (p : Nat) : Answer Nat := do
  let t ← lex source p
  match t.kind, trusting with
  | .close, false => return t.span.stop
  | .closeTriple, true => return t.span.stop
  | .closeTriple, false => return t.span.start + 2
  | _, _ => refuse (unexpected (.token (if trusting then .closeTriple else .close)) t)

/-! ## Expressions -/

def segments : Nat → Nat → Nat → Answer (List Name × Nat)
  | 0, _, _ => .error .spent
  | n + 1, stop, p => do
    let dot ← lex source p
    if dot.kind ≠ .dot ∨ dot.span.start ≠ stop then return ([], p)
    else
      let t ← lex source dot.span.stop
      if t.kind ≠ .name ∧ t.kind ≠ .number ∨ t.span.start ≠ dot.span.stop then
        refuse ⟨.invalidPath .segmentExpected, dot.span⟩
      else
        let name ← nameOf source t
        let (names, q) ← segments n t.span.stop t.span.stop
        return (name :: names, q)

def path (start : Nat) (head : PathHead) (p : Nat) : Answer (Expr × Nat) := do
  let (tail, after) ← segments source (bound source) head.span.stop p
  let stop := (tail.getLast?.map (·.span.stop)).getD head.span.stop
  return (.path ⟨head, tail, ← cut source start stop, ⟨start, stop⟩⟩, after)

/-- The value of a quoted text. Its quote is its first byte, and its last byte is not looked at. -/
def stringValue (t : Token) : Answer String := do
  let text ← textOf source t
  let quote ← cut text 0 1
  let body ← cut text 1 (size text - 1)
  return String.ofList (replaceAll ('\\' :: quote.toList) quote.toList body.toList)

def word (t : Token) (p : Nat) : Answer (Expr × Nat) := do
  let text ← textOf source t
  let dot ← lex source p
  match if dot.kind = .dot ∧ dot.span.start = t.span.stop then none else wordLiteral? text with
  | some value => return (.literal value t.span, p)
  | none => path source t.span.start (if text = "this" then .this t.span else .var ⟨text, t.span⟩) p

def argument (sign : Token) (p : Nat) : Answer (Expr × Nat) := do
  let t ← lex source p
  if t.kind ≠ .name ∨ t.span.start ≠ sign.span.stop then
    refuse ⟨.invalidPath .argumentNameExpected, sign.span.cover t.span⟩
  else path source sign.span.start (.arg (← nameOf source t)) t.span.stop

def paramNames : Nat → Nat → Answer (List Name × Nat)
  | 0, _ => .error .spent
  | n + 1, p => do
    let t ← lex source p
    match t.kind with
    | .name =>
      let name ← nameOf source t
      let (names, q) ← paramNames n t.span.stop
      return (name :: names, q)
    | .pipe => return ([], t.span.stop)
    | _ => refuse (unexpected .blockParam t)

def params (p : Nat) : Answer (List Name × Nat) := do
  let word ← lex source p
  let bar ← lex source word.span.stop
  let (names, after) ← paramNames source (bound source) bar.span.stop
  if names.isEmpty then refuse ⟨.malformed .noParams, word.span⟩ else return (names, after)

def arguments (expr : Nat → Answer (Expr × Nat)) : Nat → Option Nat → Nat → Answer (Reader.Arguments × Nat)
  | 0, _, _ => .error .spent
  | n + 1, last, p => do
    let t ← lex source p
    match t.kind with
    | .close | .closeTriple | .tilde | .closeParen | .eof => return (⟨[], [], []⟩, p)
    | kind =>
      let second ← lex source t.span.stop
      let text ← textOf source t
      if kind = .name ∧ second.kind = .equals then
        let (value, q) ← expr second.span.stop
        let pair : Pair := ⟨⟨text, t.span⟩, value, t.span.cover value.span⟩
        let (args, q) ← arguments expr n (some pair.span.stop) q
        return ({ args with pairs := pair :: args.pairs }, q)
      else if kind = .name ∧ text = "as" ∧ second.kind = .pipe then
        let (names, q) ← params source p
        return (⟨[], [], names⟩, q)
      else
        match last with
        | some stop => refuse ⟨.malformed .positionalAfterNamed, ⟨stop, t.span.stop⟩⟩
        | none =>
          let (value, q) ← expr p
          let (args, q) ← arguments expr n none q
          return ({ args with params := value :: args.params }, q)

def invocation (expr : Nat → Answer (Expr × Nat)) (p : Nat) : Answer (Invocation × Nat) := do
  let (callee, q) ← expr p
  let (args, q) ← arguments source expr (bound source) none q
  return (⟨callee, args⟩, q)

def expression : Nat → Nat → Answer (Expr × Nat)
  | 0, _ => .error .spent
  | n + 1, p => do
    let t ← lex source p
    match t.kind with
    | .openParen =>
      let (i, q) ← invocation source (expression n) t.span.stop
      let _ ← carry id (i.plain t.span)
      let (close, q) ← expect source .closeParen q
      return (.call (i.call (t.span.cover close.span)), q)
    | .string => return (.literal (.string (← stringValue source t)) t.span, t.span.stop)
    | .number => return (.literal (.number (Decimal.ofText (← textOf source t))) t.span, t.span.stop)
    | .atSign => argument source t t.span.stop
    | .name => word source t t.span.stop
    | _ => refuse (unexpected .expression t)

def invocationAt (p : Nat) : Answer (Invocation × Nat) := invocation source (expression source (bound source)) p

/-! ## Braces -/

/-- What the braces at a position begin, told by what follows their first two bytes. -/
def curly (p : Nat) : Answer Curly := do
  let c ← look source p
  return classify (← ((dropBytes 2 c.rest).map .ok).getD (.error .slice))

def braces (p : Nat) : Answer Span := return curlySpan (← look source p)

def closeComment (start body : Nat) : Option (Nat × Nat) → Answer (Comment × Nat)
  | some (length, closing) => do
    let value ← cut source body (body + length)
    return (⟨value, ⟨start, body + length + closing⟩⟩, body + length + closing)
  | none => refuse ⟨.unclosedComment, ⟨start, size source⟩⟩

def comment (p : Nat) : Answer (Comment × Nat) := do
  let body ← look source (p + 4)
  closeComment source p (p + 4) ((splitAtFirst "-->".toList body.rest).map fun found => (byteLength found.1, 3))

/-- The length of the body of a comment without dashes, and of what closes it. -/
def shortBody? (rest : List Char) : Option (Nat × Nat) :=
  (splitAtFirst "\x7d\x7d".toList rest).map fun found =>
    if (stripEnd? ['~'] found.1).isSome then (byteLength found.1 - 1, 3) else (byteLength found.1, 2)

def mustacheComment (p : Nat) : Answer (Comment × Nat) := do
  let c ← look source (p + 2)
  let sign := if c.startsWith "~" then p + 2 + 1 else p + 2
  let c ← look source (sign + 1)
  if c.startsWith "--" then
    let c ← look source (sign + 1 + 2)
    closeComment source p (sign + 1 + 2) ((longCommentBody? c.rest).map fun found => (byteLength found.1, found.2))
  else closeComment source p (sign + 1) (shortBody? c.rest)

def mustache (p : Nat) : Answer (Mustache × Nat) := do
  let c ← look source p
  let trusting := c.startsWith "\x7b\x7b\x7b"
  let inside ← skip source .tilde (p + if trusting then 3 else 2)
  let (i, after) ← invocationAt source inside
  let _ ← carry id (i.plain (.empty p))
  let stop ← expectClose source trusting (← skip source .tilde after)
  return (⟨i.call ⟨p, stop⟩, trusting⟩, stop)

/-! ## Opening tags -/

/-- The plain text between two positions as a part of a value, if there is any. -/
def textPart (start stop : Nat) : Answer (List ConcatPart) := do
  if start < stop then return [.text ⟨← cut source start stop, ⟨start, stop⟩⟩] else return []

/-- The parts of a value in quotes, one character a turn. Plain text started at `text`. -/
def quotedParts (quote : Char) (start : Nat) : Nat → Nat → Nat → Answer (List ConcatPart × Nat)
  | 0, _, _ => .error .spent
  | n + 1, text, p => do
    let c ← look source p
    match c.rest with
    | [] => refuse ⟨.invalidAttribute .unterminatedValue, ⟨start, p⟩⟩
    | d :: rest =>
      if endsQuotedText quote (d :: rest) then
        let front ← textPart source text p
        if d = quote then return (front, p + 1)
        else if (← curly source p) ≠ .mustache then
          refuse ⟨.invalidAttribute .blockInValue, ← braces source p⟩
        else
          let (m, after) ← mustache source p
          let (parts, stop) ← quotedParts quote start n after after
          return (front ++ .mustache m :: parts, stop)
      else quotedParts quote start n text (p + d.utf8Size)

def quotedValue (quote : Char) (p : Nat) : Answer (AttrValue × Nat) := do
  let (parts, after) ← quotedParts source quote p (bound source) (p + 1) (p + 1)
  if parts.any ConcatPart.isMustache then return (.concat parts ⟨p, after⟩, after)
  else return (.text ⟨← cut source (p + 1) (after - 1), ⟨p, after⟩⟩, after)

def bareValue (name : String) (p : Nat) : Answer (AttrValue × Nat) := do
  let (run, after) ← takeRun source (fun d => !isBlank d && d != '>') p
  let c ← look source after
  let chars := if c.startsWith ">" then (stripEnd? ['/'] run.toList).getD run.toList else run.toList
  if chars.isEmpty then refuse ⟨.invalidAttribute (.valueExpected name), .empty p⟩
  else return (.text ⟨String.ofList chars, ⟨p, p + byteLength chars⟩⟩, p + byteLength chars)

def value (name : String) (p : Nat) : Answer (AttrValue × Nat) := do
  match (← look source p).rest with
  | '"' :: _ => quotedValue source '"' p
  | '\'' :: _ => quotedValue source '\'' p
  | '{' :: '{' :: _ =>
    if (← curly source p) ≠ .mustache then refuse ⟨.invalidAttribute .notAMustache, ← braces source p⟩
    else
      let (m, after) ← mustache source p
      return (.mustache m, after)
  | _ => bareValue source name p

def attr (p : Nat) : Answer (Attribute × Nat) := do
  let c ← look source p
  let (text, after) ← takeRun source isAttributeChar p
  if text.isEmpty then refuse ⟨.invalidAttribute (.nameExpected c.rest.head?), ⟨p, p + 1⟩⟩
  else
    let sign ← skipBlank source after
    if (← look source sign).startsWith "=" then
      let (v, stop) ← value source text (← skipBlank source (sign + 1))
      return (⟨⟨text, ⟨p, after⟩⟩, v, ⟨p, stop⟩⟩, stop)
    else return (⟨⟨text, ⟨p, after⟩⟩, .text ⟨"", .empty after⟩, ⟨p, after⟩⟩, after)

def tagParamNames (start : Nat) : Nat → Nat → Answer (List Name × Nat)
  | 0, _ => .error .spent
  | n + 1, p => do
    let p ← skipBlank source p
    match (← look source p).rest with
    | [] => refuse ⟨.malformed .unclosedParams, ⟨start, p⟩⟩
    | '|' :: _ => return ([], p + 1)
    | _ =>
      let (text, after) ← takeRun source isParamChar p
      if text.isEmpty then refuse ⟨.malformed .paramExpected, ⟨p, p + 1⟩⟩
      else
        let (names, stop) ← tagParamNames start n after
        return (⟨text, ⟨p, after⟩⟩ :: names, stop)

def tagParams (p : Nat) : Answer (List Name × Nat) := do
  let bar ← skipBlank source (p + 2)
  let (names, after) ← tagParamNames source p (bound source) (bar + 1)
  if names.isEmpty then refuse ⟨.malformed .noParams, ⟨p, after⟩⟩ else return (names, after)

def tagContents (unclosed : ParseError) : Nat → Nat → Answer (TagContents × Nat)
  | 0, _ => .error .spent
  | n + 1, p => do
    let p ← skipBlank source p
    let c ← look source p
    match c.rest with
    | [] => refuse unclosed
    | '/' :: '>' :: _ => return ({ selfClosing := true }, p + 2)
    | '>' :: _ => return ({}, p + 1)
    | '{' :: '{' :: _ =>
      match ← curly source p with
      | .comment =>
        let (m, after) ← mustacheComment source p
        let (more, stop) ← tagContents unclosed n after
        return ({ more with comments := m :: more.comments }, stop)
      | .mustache =>
        let (m, after) ← mustache source p
        let (more, stop) ← tagContents unclosed n after
        return ({ more with modifiers := m.call :: more.modifiers }, stop)
      | _ => refuse ⟨.malformed .blockInOpenTag, ← braces source p⟩
    | _ =>
      if startsParams c.rest then
        let (names, after) ← tagParams source p
        let (more, stop) ← tagContents unclosed n after
        return ({ more with params := more.params <|> some names }, stop)
      else
        let (a, after) ← attr source p
        let (more, stop) ← tagContents unclosed n after
        return ({ more with attributes := a :: more.attributes }, stop)

/-! ## Text -/

end

/-- Whether bytes start with those of a word. -/
def startsWith (word : String) (bs : List UInt8) : Bool := (bytes word.toList).isPrefixOf bs

/-- Whether the bytes of an element start here. -/
def startsElement : List UInt8 → Bool
  | a :: b :: _ => a == byte '<' && ascii isTagStart b
  | _ => false

def endsText (bs : List UInt8) : Bool :=
  startsWith "\x7b\x7b" bs || startsWith "</" bs || startsWith "<!--" bs || startsElement bs

/-- The end of the plain text that starts at a position, from a position in it on. -/
def textStop (bs : List UInt8) (start i : Nat) : Nat :=
  if i < bs.length then
    if startsWith "\\\x7b\x7b" (bs.drop i) then textStop bs start (i + 3)
    else if start < i && endsText (bs.drop i) then i
    else textStop bs start (i + 1)
  else i
termination_by bs.length - i

section

variable (source : String)

def text (p : Nat) : Answer (TextRun × Nat) := do
  let stop := textStop (bytes source.toList) p p
  return (⟨← cut source p stop, ⟨p, stop⟩⟩, stop)

/-! ## Blocks -/

abbrev Children := Place → Nat → Answer (List Statement × Nat)

def blockClose (p : Nat) : Answer ((String × Span) × Nat) := do
  let (_, after) ← expect source .slash (← skip source .tilde (p + 2))
  let (value, after) ← expression source (bound source) after
  match value with
  | .path path =>
    let stop ← expectClose source false (← skip source .tilde after)
    return ((path.written, path.span), stop)
  | other => refuse ⟨.malformed .closeNeedsPath, other.span⟩

def closing (name : String) (p : Nat) : Answer (Span × Nat) := do
  let (found, after) ← blockClose source p
  if found.1 ≠ name then refuse ⟨.mismatchedBlockClose name found.1, found.2⟩ else return (found.2, after)

def arms (children : Children) (name : String) : Nat → Nat → Invocation → Nat → Answer (Block × Nat)
  | 0, _, _, _ => .error .spent
  | n + 1, start, i, p => do
    let (body, after) ← children .block p
    let program : Arm := ⟨body, i.args.blockParams, false, ⟨p, after⟩⟩
    let block (inverse : Option Arm) (stop : Nat) : Block × Nat :=
      (⟨i.call ⟨start, stop⟩, program, inverse, none, ⟨start, stop⟩⟩, stop)
    if size source ≤ after then refuse ⟨.unclosedBlock name, ⟨start, p⟩⟩
    else if (← curly source after) ≠ .otherwise then return block none after
    else
      let word ← lex source (← skip source .tilde (after + 2))
      let inside := word.span.stop
      let following ← lex source inside
      if following.kind = .close ∨ following.kind = .tilde then
        let opened ← expectClose source false (← skip source .tilde inside)
        let (body, stop) ← children .block opened
        if size source ≤ stop then refuse ⟨.unclosedBlock name, ⟨start, p⟩⟩
        else if (← curly source stop) = .otherwise then refuse ⟨.malformed (.secondElse name), ← braces source stop⟩
        else return block (some ⟨body, [], false, ⟨opened, stop⟩⟩) stop
      else
        let (chained, opened) ← invocationAt source inside
        let opened ← expectClose source false (← skip source .tilde opened)
        let (nested, stop) ← arms children name n after chained opened
        return block (some ⟨[.block nested], [], true, ⟨after, stop⟩⟩) stop

def block (children : Children) (p : Nat) : Answer (Block × Nat) := do
  let (_, inside) ← expect source .hash (← skip source .tilde (p + 2))
  let (i, after) ← invocationAt source inside
  let opened ← expectClose source false (← skip source .tilde after)
  match i.callee with
  | .path path =>
    let (b, q) ← arms source children path.written (bound source) p i opened
    let (span, stop) ← closing source path.written q
    return ({ b with call := i.call ⟨p, stop⟩, closeSpan := some span, span := ⟨p, stop⟩ }, stop)
  | other => refuse ⟨.malformed .blockNeedsPath, other.span⟩

/-! ## Elements -/

def closeTag (tag : String) (p : Nat) : Answer (Span × Nat) := do
  let (found, after) ← takeRun source isCloseTagChar (p + 2)
  let bracket ← skipBlank source after
  let c ← look source bracket
  if !c.startsWith ">" then refuse ⟨.unexpectedToken .tagEnd (.char c.rest.head?), .empty bracket⟩
  else if found ≠ tag then refuse ⟨.mismatchedClosingTag tag found, ⟨p + 2, after⟩⟩
  else return (⟨p + 2, after⟩, bracket + 1)

def element (children : Children) (p : Nat) : Answer (Element × Nat) := do
  let (tag, after) ← takeRun source isTagChar (p + 1)
  let (contents, opened) ← tagContents source ⟨.unclosedElement tag, ⟨p, after⟩⟩ (bound source) after
  let element (body : List Statement) (closeTag : Option Span) (stop : Nat) : Element × Nat :=
    (⟨⟨tag, ⟨p + 1, after⟩⟩, contents.attributes, contents.modifiers, contents.comments, contents.params.getD [], body,
      contents.selfClosing, closeTag, ⟨p, stop⟩⟩, stop)
  if contents.selfClosing || voidTags.contains tag then return element [] none opened
  else
    let (body, q) ← children .element opened
    if size source ≤ q then refuse ⟨.unclosedElement tag, ⟨p, opened⟩⟩
    else
      let (span, stop) ← closeTag source tag q
      return element body (some span) stop

/-! ## Statements -/

def curlyStatement (children : Children) (place : Place) (p : Nat) : Answer (Option (Statement × Nat)) := do
  match ← curly source p with
  | .comment =>
    let (m, after) ← mustacheComment source p
    return some (.mustacheComment m, after)
  | .blockOpen =>
    let (b, after) ← block source children p
    return some (.block b, after)
  | .mustache =>
    let (m, after) ← mustache source p
    return some (.mustache m, after)
  | .otherwise =>
    if place = .block then return none else refuse ⟨.malformed .elseOutsideBlock, ← braces source p⟩
  | .blockClose =>
    if place = .block then return none else refuse ⟨.malformed .closeOutsideBlock, ← braces source p⟩

def statement (children : Children) (place : Place) (p : Nat) : Answer (Option (Statement × Nat)) := do
  let c ← look source p
  if c.startsWith "</" then
    if place = .element then return none
    else
      let (tag, after) ← takeRun source isCloseTagChar (p + 2)
      refuse ⟨.unexpectedClosingTag tag, ⟨p, after⟩⟩
  else if c.startsWith "<!--" then
    let (m, after) ← comment source p
    return some (.comment m, after)
  else if startsElement (bytes c.rest) then
    let (e, after) ← element source children p
    return some (.element e, after)
  else if c.startsWith "\x7b\x7b" then curlyStatement source children place p
  else
    let (t, after) ← text source p
    return some (.text t, after)

def statements : Nat → Children
  | 0, _, _ => .error .spent
  | n + 1, place, p => do
    if size source ≤ p then return ([], p)
    else
      match ← statement source (statements n) place p with
      | none => return ([], p)
      | some (s, after) =>
        let (ss, stop) ← statements n place after
        return (s :: ss, stop)

/-- The walk over a whole template. -/
def parse : Answer Template := do
  let (body, _) ← statements source (bound source) .root 0
  return ⟨body, ⟨0, size source⟩⟩

end

end TypedTemplate.Template.Walk
