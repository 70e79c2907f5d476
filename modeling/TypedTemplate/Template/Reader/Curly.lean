/-
Curly braces: what an opening pair begins, and the mustaches and comments that stand on their own.
-/
import TypedTemplate.Template.Reader.Expr

namespace TypedTemplate.Template.Reader

open Text

/-- What a pair of opening braces begins. -/
inductive Curly where
  | comment
  | blockOpen
  | blockClose
  | otherwise
  | mustache
  deriving Repr, DecidableEq, Inhabited

/-- Whether what follows the word `else` ends it. -/
def endsElse : List Char → Bool
  | c :: _ => isBlank c || c == '}' || c == '~'
  | [] => false

/-- Tells the kinds of braces apart by what follows the first two. -/
def classify (inner : List Char) : Curly :=
  if inner.head? = some '{' then .mustache
  else
    let inner := (stripStart? ['~'] inner).getD inner
    if inner.head? = some '!' then .comment
    else
      match trimStart inner with
      | '#' :: _ => .blockOpen
      | '/' :: _ => .blockClose
      | 'e' :: 'l' :: 's' :: 'e' :: after => if endsElse after then .otherwise else .mustache
      | _ => .mustache

/-- What the braces at a place begin. -/
def curlyAt (c : Cursor) : Curly := classify (c.rest.drop 2)

/-- The span of the braces at a place, to the first pair of closing ones or to the end. -/
def curlySpan (c : Cursor) : Span :=
  match splitAtFirst "\x7d\x7d".toList c.rest with
  | some (inside, _) => ⟨c.pos, c.pos + byteLength inside + 2⟩
  | none => ⟨c.pos, c.stop⟩

/-! ## Comments -/

/-- A comment whose body, a run of the characters at `body`, has been found. -/
def commentOf (start : Cursor) (body : Cursor) (inside : List Char) (closing : Nat) :
    Comment × Cursor :=
  let after := body.advance (inside.length + closing)
  (⟨String.ofList inside, ⟨start.pos, after.pos⟩⟩, after)

def unclosedComment (start : Cursor) : ParseError := ⟨.unclosedComment, ⟨start.pos, start.stop⟩⟩

/-- A comment of the markup, which the text at a place begins. -/
def readComment (c : Cursor) : Read (Comment × Cursor) :=
  let body := c.advance 4
  match splitAtFirst "-->".toList body.rest with
  | some (inside, _) => .ok (commentOf c body inside 3)
  | none => .error (unclosedComment c)

/-- The body of a comment that opens with two dashes, and the length of what closes it. -/
def longCommentBody? (rest : List Char) : Option (List Char × Nat) :=
  let plain := (splitAtFirst "--\x7d\x7d".toList rest).map (·.1)
  let trimming := (splitAtFirst "--~\x7d\x7d".toList rest).map (·.1)
  match plain, trimming with
  | some a, some b => if b.length < a.length then some (b, 5) else some (a, 4)
  | some a, none => some (a, 4)
  | none, some b => some (b, 5)
  | none, none => none

/-- The body of a comment without dashes, and the length of what closes it. -/
def shortCommentBody? (rest : List Char) : Option (List Char × Nat) :=
  (splitAtFirst "\x7d\x7d".toList rest).map fun (inside, _) =>
    match stripEnd? ['~'] inside with
    | some inside => (inside, 3)
    | none => (inside, 2)

/-- A comment in braces. -/
def readMustacheComment (c : Cursor) : Read (Comment × Cursor) :=
  let c₁ := c.advance 2
  let c₂ := if c₁.startsWith "~" then c₁.advance 1 else c₁
  let c₃ := c₂.advance 1
  let long := c₃.startsWith "--"
  let body := if long then c₃.advance 2 else c₃
  match if long then longCommentBody? body.rest else shortCommentBody? body.rest with
  | some (inside, closing) => .ok (commentOf c body inside closing)
  | none => .error (unclosedComment c)

/-! ## Mustaches -/

def readMustache (c : Cursor) : Read (Mustache × Cursor) := do
  let trusting := c.startsWith "\x7b\x7b\x7b"
  let inside := skip .tilde (c.advance (if trusting then 3 else 2))
  let (invocation, after) ← readInvocationAt inside
  -- Block parameters are refused before the closing braces are looked for.
  let _ ← invocation.plain (.empty c.pos)
  let stop ← expectClose trusting (skip .tilde after)
  return (⟨invocation.call ⟨c.pos, stop.pos⟩, trusting⟩, stop)

end TypedTemplate.Template.Reader
