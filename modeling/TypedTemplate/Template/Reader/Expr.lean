/-
Reading what stands between curly braces: expressions, their arguments and block parameters. A reader
takes a place in the text and answers what it read with the place after it. Readers that nest take a
bound on the characters that are left; where the bound is spent no character is left, so they answer
as they do at the end of the text.
-/
import TypedTemplate.Template.Basic
import TypedTemplate.Template.Error

namespace TypedTemplate.Template.Reader

open Lexer

/-- What was read, or why it cannot be read. -/
abbrev Read := Except ParseError

/-! ## Single tokens -/

/-- A token stands where something else is looked for. -/
def unexpected (expected : Expected) (t : Token) : ParseError :=
  if t.kind = .eof then ⟨.unexpectedEnd expected, t.span⟩
  else ⟨.unexpectedToken expected (.token t.kind), t.span⟩

def layoutError {α : Type} (fault : LayoutFault) (span : Span) : Read α :=
  .error ⟨.malformed fault, span⟩

/-- Reads a token of one kind. -/
def expect (kind : TokenKind) (c : Cursor) : Read (Token × Cursor) :=
  let l := next c
  if l.token.kind = kind then .ok (l.token, l.after)
  else .error (unexpected (.token kind) l.token)

/-- Passes over a token of one kind, if one comes next. -/
def skip (kind : TokenKind) (c : Cursor) : Cursor :=
  let l := next c
  if l.token.kind = kind then l.after else c

/-- The place after closing braces. Where two are looked for and three stand, the third is text. -/
def expectClose (trusting : Bool) (c : Cursor) : Read Cursor :=
  let l := next c
  match l.token.kind, trusting with
  | .close, false => .ok l.after
  | .closeTriple, true => .ok l.after
  | .closeTriple, false => .ok (l.before.advance 2)
  | _, _ => .error (unexpected (.token (if trusting then .closeTriple else .close)) l.token)

/-! ## Paths and literals -/

def nameOf (t : Token) : Name := ⟨t.text, t.span⟩

/-- The segments after the head of a path, which ends at `stop`. A point belongs to the path only if it
touches what precedes it, and so does the name after it. -/
def readSegments : Nat → Nat → Cursor → Read (List Name × Cursor)
  | 0, _, c => .ok ([], c)
  | fuel + 1, stop, c =>
    let dot := next c
    if dot.token.kind ≠ .dot ∨ dot.token.span.start ≠ stop then .ok ([], c)
    else
      let name := next dot.after
      if name.token.kind ≠ .name ∧ name.token.kind ≠ .number
          ∨ name.token.span.start ≠ dot.token.span.stop then
        .error ⟨.invalidPath .segmentExpected, dot.token.span⟩
      else do
        let (names, c) ← readSegments fuel name.token.span.stop name.after
        return (nameOf name.token :: names, c)

/-- The rest of a path that starts at `start` and whose head has been read; `sigil` is what stands
before the head's name. -/
def readPath (start : Nat) (sigil : String) (head : PathHead) (text : String) (c : Cursor) :
    Read (Expr × Cursor) := do
  let (tail, after) ← readSegments (c.rest.length + 1) head.span.stop c
  let stop := (tail.getLast?.map (·.span.stop)).getD head.span.stop
  let written := tail.foldl (fun s n => s ++ "." ++ n.text) (sigil ++ text)
  return (.path ⟨head, tail, written, ⟨start, stop⟩⟩, after)

/-- The value of a quoted text: a backslash before the quote in use is dropped. -/
def stringValue (text : String) : String :=
  match text.toList with
  | [] => ""
  | quote :: body => String.ofList (Text.replaceAll ['\\', quote] [quote] body.dropLast)

/-- The words that are values of their own. -/
def wordLiteral? : String → Option Literal
  | "true" => some (.boolean true)
  | "false" => some (.boolean false)
  | "null" => some .null
  | "undefined" => some .undefined
  | _ => none

/-- A word that has been read: a value, unless a point touches it, or the head of a path. -/
def readWord (t : Token) (after : Cursor) : Read (Expr × Cursor) :=
  let dot := peek after
  let literal := if dot.kind = .dot ∧ dot.span.start = t.span.stop then none else wordLiteral? t.text
  match literal with
  | some value => .ok (.literal value t.span, after)
  | none =>
    let head := if t.text = "this" then PathHead.this t.span else .var (nameOf t)
    readPath t.span.start "" head t.text after

/-- What follows an at sign that has been read. -/
def readArgument (sign : Token) (c : Cursor) : Read (Expr × Cursor) :=
  let name := next c
  if name.token.kind ≠ .name ∨ name.token.span.start ≠ sign.span.stop then
    .error ⟨.invalidPath .argumentNameExpected, sign.span.cover name.token.span⟩
  else readPath sign.span.start "@" (.arg (nameOf name.token)) name.token.text name.after

/-! ## Calls -/

/-- The names of block parameters up to the bar that closes them. -/
def readParamNames : Nat → Cursor → Read (List Name × Cursor)
  | 0, c => .error (unexpected .blockParam (peek c))
  | fuel + 1, c =>
    let l := next c
    match l.token.kind with
    | .name => do
      let (names, c) ← readParamNames fuel l.after
      return (nameOf l.token :: names, c)
    | .pipe => .ok ([], l.after)
    | _ => .error (unexpected .blockParam l.token)

/-- Block parameters, from their `as` on. -/
def readParams (c : Cursor) : Read (List Name × Cursor) := do
  let word := next c
  let bar := next word.after
  let (names, after) ← readParamNames (c.rest.length + 1) bar.after
  if names.isEmpty then layoutError .noParams word.token.span
  return (names, after)

/-- What follows a callee. -/
structure Arguments where
  params : List Expr
  pairs : List Pair
  blockParams : List Name

/-- A callee with what follows it. -/
structure Invocation where
  callee : Expr
  args : Arguments

/-- The named arguments of an invocation; without any, the place where they would start. -/
def Invocation.hash (i : Invocation) : Hash :=
  match i.args.pairs.head?, i.args.pairs.getLast? with
  | some first, some last => ⟨i.args.pairs, first.span.cover last.span⟩
  | _, _ => ⟨[], .empty (i.args.params.getLast?.getD i.callee).span.stop⟩

def Invocation.call (i : Invocation) (span : Span) : Call := ⟨i.callee, i.args.params, i.hash, span⟩

/-- The invocation as a call, which has no block parameters. -/
def Invocation.plain (i : Invocation) (span : Span) : Read Call :=
  match i.args.blockParams with
  | [] => .ok (i.call span)
  | name :: _ => layoutError .paramsOutsideBlock name.span

/-- The arguments of a call, read with a reader of expressions. `last` is the end of the last named
argument read so far: positional ones come before it. -/
def readArguments (expr : Cursor → Read (Expr × Cursor)) :
    Nat → Option Nat → Cursor → Read (Arguments × Cursor)
  | 0, _, c => .ok (⟨[], [], []⟩, c)
  | fuel + 1, last, c =>
    let l := next c
    match l.token.kind with
    | .close | .closeTriple | .tilde | .closeParen | .eof => .ok (⟨[], [], []⟩, c)
    | kind =>
      let second := next l.after
      if kind = .name ∧ second.token.kind = .equals then do
        let (value, c) ← expr second.after
        let pair : Pair := ⟨nameOf l.token, value, l.token.span.cover value.span⟩
        let (args, c) ← readArguments expr fuel (some pair.span.stop) c
        return ({ args with pairs := pair :: args.pairs }, c)
      else if kind = .name ∧ l.token.text = "as" ∧ second.token.kind = .pipe then do
        let (names, c) ← readParams c
        return (⟨[], [], names⟩, c)
      else
        match last with
        | some stop => layoutError .positionalAfterNamed ⟨stop, l.token.span.stop⟩
        | none => do
          let (value, c) ← expr c
          let (args, c) ← readArguments expr fuel none c
          return ({ args with params := value :: args.params }, c)

/-- A callee with its arguments. -/
def readInvocation (expr : Cursor → Read (Expr × Cursor)) (c : Cursor) :
    Read (Invocation × Cursor) := do
  let (callee, c) ← expr c
  let (args, c) ← readArguments expr (c.rest.length + 1) none c
  return (⟨callee, args⟩, c)

/-- An expression, with `fuel` above the number of characters left. -/
def readExprWith : Nat → Cursor → Read (Expr × Cursor)
  | 0, c => .error (unexpected .expression (peek c))
  | fuel + 1, c =>
    let l := next c
    match l.token.kind with
    | .openParen => do
      let (invocation, c) ← readInvocation (readExprWith fuel) l.after
      -- Block parameters are refused before the closing parenthesis is looked for.
      let _ ← invocation.plain l.token.span
      let (close, c) ← expect .closeParen c
      return (.call (invocation.call (l.token.span.cover close.span)), c)
    | .string => .ok (.literal (.string (stringValue l.token.text)) l.token.span, l.after)
    | .number => .ok (.literal (.number (Decimal.ofText l.token.text)) l.token.span, l.after)
    | .atSign => readArgument l.token l.after
    | .name => readWord l.token l.after
    | _ => .error (unexpected .expression l.token)

def readExpr (c : Cursor) : Read (Expr × Cursor) := readExprWith (c.rest.length + 1) c

/-- A callee with its arguments, as every kind of curly braces holds it. -/
def readInvocationAt (c : Cursor) : Read (Invocation × Cursor) := readInvocation readExpr c

end TypedTemplate.Template.Reader
