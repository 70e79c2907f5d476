/-
Tokens of the inside of a mustache. At every place the longest token is taken, a number before a name
of the same length; where no token fits, an invalid token covers the longest stretch that some token
could begin with, at least one character. Space, tab, line feed, form feed and carriage return
separate tokens; other white space belongs to none.
-/
import TypedTemplate.Span
import TypedTemplate.Text.Blank

namespace TypedTemplate.Template

inductive TokenKind where
  | closeTriple
  | close
  | tilde
  | openParen
  | closeParen
  | equals
  | pipe
  | dot
  | atSign
  | hash
  | slash
  | string
  | number
  | name
  /-- Characters that belong to no token. -/
  | invalid
  | eof
  deriving Repr, DecidableEq, Inhabited

/-- How a token reads in messages. -/
def TokenKind.describe : TokenKind → String
  | .closeTriple => "`\x7d\x7d\x7d`"
  | .close => "`\x7d\x7d`"
  | .tilde => "`~`"
  | .openParen => "`(`"
  | .closeParen => "`)`"
  | .equals => "`=`"
  | .pipe => "`|`"
  | .dot => "`.`"
  | .atSign => "`@`"
  | .hash => "`#`"
  | .slash => "`/`"
  | .string => "string"
  | .number => "number"
  | .name => "identifier"
  | .invalid => "invalid character"
  | .eof => "end of template"

/-- A token with its place and its text. -/
structure Token where
  kind : TokenKind
  span : Span
  text : String
  deriving Repr, DecidableEq, Inhabited

namespace Lexer

open Text

/-! ## The classes of characters -/

/-- The characters between tokens. -/
def isSeparator (c : Char) : Bool :=
  c == ' ' || c == '\t' || c == '\r' || c == '\n' || c == '\x0c'

/-- The characters of names: all but white space and the marks of the language. -/
def isNameChar (c : Char) : Bool :=
  !isBlank c && !("!\"#%&'()*+,./;<=>@[\\]^`\x7b|\x7d~".toList.contains c)

/-! ## The length of each token -/

/-- How far a string reaches after its opening quote, and whether it is closed. A backslash takes the
next character with it, unless that is a line feed. -/
def stringLength (quote : Char) : List Char → Nat × Bool
  | [] => (0, false)
  | [c] => (1, c == quote)
  | c :: d :: rest =>
    if c = quote then (1, true)
    else if c = '\\' then
      if d = '\n' then (1, false)
      else
        let (n, closed) := stringLength quote rest
        (n + 2, closed)
    else
      let (n, closed) := stringLength quote (d :: rest)
      (n + 1, closed)

/-- How many digits come first. -/
def digitCount (cs : List Char) : Nat := (cs.takeWhile Char.isDigit).length

/-- The length of digits, with a fraction if a point and a digit follow them. -/
def unsignedLength (cs : List Char) : Nat :=
  match digitCount cs with
  | 0 => 0
  | whole + 1 =>
    match cs.drop (whole + 1) with
    | '.' :: rest =>
      match digitCount rest with
      | 0 => whole + 1
      | fraction + 1 => whole + 1 + (fraction + 2)
    | _ => whole + 1

/-- The length of the number that comes first, zero if there is none. -/
def numberLength : List Char → Nat
  | '-' :: rest =>
    match unsignedLength rest with
    | 0 => 0
    | n + 1 => n + 2
  | cs => unsignedLength cs

/-- The length of the name that comes first, zero if there is none. -/
def nameLength (cs : List Char) : Nat := (cs.takeWhile isNameChar).length

/-- The longer of the number and the name that come first, the number if they are equally long. -/
def scanWord (cs : List Char) : TokenKind × Nat :=
  if numberLength cs = 0 ∧ nameLength cs = 0 then (.invalid, 1)
  else if nameLength cs ≤ numberLength cs then (.number, numberLength cs)
  else (.name, nameLength cs)

/-- The kind of the token at the front, and its length in characters. -/
def scan : List Char → TokenKind × Nat
  | [] => (.eof, 0)
  | '}' :: '}' :: '}' :: _ => (.closeTriple, 3)
  | '}' :: '}' :: _ => (.close, 2)
  | '~' :: _ => (.tilde, 1)
  | '(' :: _ => (.openParen, 1)
  | ')' :: _ => (.closeParen, 1)
  | '=' :: _ => (.equals, 1)
  | '|' :: _ => (.pipe, 1)
  | '.' :: _ => (.dot, 1)
  | '@' :: _ => (.atSign, 1)
  | '#' :: _ => (.hash, 1)
  | '/' :: _ => (.slash, 1)
  | c :: cs =>
    if c = '"' ∨ c = '\'' then
      let (n, closed) := stringLength c cs
      (if closed then .string else .invalid, n + 1)
    else scanWord (c :: cs)

/-! ## Reading tokens -/

/-- A token, the place where it starts and the place after it. -/
structure Lexeme where
  token : Token
  before : Cursor
  after : Cursor
  deriving Repr, DecidableEq

/-- The token after the separators at a place. -/
def next (c : Cursor) : Lexeme :=
  let before := c.skipWhile isSeparator
  let (kind, n) := scan before.rest
  let after := before.advance n
  ⟨⟨kind, ⟨before.pos, after.pos⟩, String.ofList (before.rest.take n)⟩, before, after⟩

/-- The next token. -/
def peek (c : Cursor) : Token := (next c).token

/-- The token after `n` others. -/
def ahead : Nat → Cursor → Token
  | 0, c => peek c
  | n + 1, c => ahead n (next c).after

theorem scanWord_pos (cs : List Char) : 0 < (scanWord cs).2 := by
  unfold scanWord
  split
  · exact Nat.one_pos
  · split <;> simp only [] <;> omega

theorem scan_pos (c : Char) (cs : List Char) : 0 < (scan (c :: cs)).2 := by
  unfold scan
  split <;> try simp
  · contradiction
  · split
    · exact Nat.succ_pos _
    · exact scanWord_pos _

theorem next_after_lt (c : Cursor) (h : (next c).token.kind ≠ .eof) :
    (next c).after.rest.length < c.rest.length := by
  have hle : (c.rest.dropWhile isSeparator).length ≤ c.rest.length :=
    (List.dropWhile_sublist _).length_le
  cases hr : c.rest.dropWhile isSeparator with
  | nil => simp [next, Cursor.skipWhile, hr, scan] at h
  | cons d ds =>
    have hp := scan_pos d ds
    rw [hr] at hle
    simp only [next, Cursor.skipWhile, Cursor.advance, hr, List.length_drop, List.length_cons] at *
    omega

/-- All tokens from a place on, the last one the end of the text. -/
def tokens (c : Cursor) : List Token :=
  if _h : (next c).token.kind = .eof then [(next c).token]
  else (next c).token :: tokens (next c).after
termination_by c.rest.length
decreasing_by exact next_after_lt c ‹_›

end Lexer

/-! ## A stream of tokens -/

/-- The tokens that were read ahead, where the next one is looked for, where the last taken one ended, and
whether the end of the text was handed out by `next?`. -/
structure TokenStream where
  cursor : Cursor
  buffer : List Token := []
  position : Nat
  ended : Bool := false

namespace TokenStream

def ofCursor (c : Cursor) : TokenStream := { cursor := c, position := c.pos }

/-- Reads one more token ahead. -/
def readAhead (s : TokenStream) : TokenStream :=
  let l := Lexer.next s.cursor
  { s with cursor := l.after, buffer := s.buffer ++ [l.token] }

theorem length_readAhead (s : TokenStream) : s.readAhead.buffer.length = s.buffer.length + 1 := by
  simp [readAhead]

/-- Reads ahead until more than `n` tokens wait to be taken. -/
def lookAhead (s : TokenStream) (n : Nat) : TokenStream :=
  if n < s.buffer.length then s else s.readAhead.lookAhead n
termination_by n + 1 - s.buffer.length
decreasing_by
  rw [length_readAhead]
  omega

theorem lt_length_lookAhead (s : TokenStream) (n : Nat) : n < (s.lookAhead n).buffer.length := by
  fun_induction lookAhead s n with
  | case1 s h => exact h
  | case2 s h ih => exact ih

/-- The token after `n` others. The stream has read it ahead then, as `lookAhead` says. -/
def peekNth (s : TokenStream) (n : Nat) : Token :=
  (s.lookAhead n).buffer.get ⟨n, s.lt_length_lookAhead n⟩

def peek (s : TokenStream) : Token := s.peekNth 0

/-- Takes the next token. -/
def bump (s : TokenStream) : Token × TokenStream :=
  match s.buffer with
  | t :: rest => (t, { s with buffer := rest, position := t.span.stop })
  | [] =>
    let l := Lexer.next s.cursor
    (l.token, { s with cursor := l.after, position := l.token.span.stop })

/-- Takes the next token if it is of that kind. -/
def eat (s : TokenStream) (kind : TokenKind) : Option Token × TokenStream :=
  if s.peek.kind = kind then
    let (t, s) := (s.lookAhead 0).bump
    (some t, s)
  else (none, s.lookAhead 0)

/-- Takes the next token, and none after the end of the text was taken. -/
def next? (s : TokenStream) : Option Token × TokenStream :=
  if s.ended then (none, s)
  else
    let (t, s) := s.bump
    (some t, { s with ended := t.kind == .eof })

end TokenStream

end TypedTemplate.Template
