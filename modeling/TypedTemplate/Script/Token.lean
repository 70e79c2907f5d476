/-
Tokens of a script. White space and comments separate them; whether a slash divides or opens a regular
expression is for the reader to say, who knows whether a value is due.
-/
import TypedTemplate.Script.ClassHead

namespace TypedTemplate.Script

open Text

/-! ## Between tokens -/

/-- The characters that end a line. -/
def isLineEnd (c : Char) : Bool := c == '\n' || c == '\r' || c == '\u2028' || c == '\u2029'

def isSpace (c : Char) : Bool := isBlank c || c == '\ufeff'

/-- Passes over white space and comments; tells whether a line ended on the way. A comment that is not
closed is not passed over. -/
def passTrivia : Nat → Bool → Cursor → Bool × Cursor
  | 0, ended, c => (ended, c)
  | fuel + 1, ended, c =>
    match c.rest with
    | '/' :: '/' :: _ => passTrivia fuel ended (c.skipWhile (!isLineEnd ·))
    | '/' :: '*' :: rest =>
      match splitAtFirst "*/".toList rest with
      | some (inside, _) =>
        passTrivia fuel (ended || inside.any isLineEnd) (c.advance (inside.length + 4))
      | none => (ended, c)
    | d :: _ =>
      if isSpace d then passTrivia fuel (ended || isLineEnd d) (c.advance 1) else (ended, c)
    | [] => (ended, c)

/-- The place of the next token. -/
def ahead (c : Cursor) : Cursor := (passTrivia c.rest.length false c).2

/-- Whether a line ends before the next token. -/
def breaksLine (c : Cursor) : Bool := (passTrivia c.rest.length false c).1

/-- Whether no token is left. -/
def isDone (c : Cursor) : Bool := (ahead c).atEnd

/-! ## Words -/

/-- The characters that names start with. -/
def isNameStart (c : Char) : Bool := isNameChar c && !c.isDigit

/-- A word: a name or a keyword. -/
def word? (c : Cursor) : Option (String × Cursor) :=
  let c := ahead c
  match c.rest with
  | d :: _ => if isNameStart d then some (c.run isNameChar, c.skipWhile isNameChar) else none
  | [] => none

/-- One given word. -/
def keyword? (w : String) (c : Cursor) : Option Cursor :=
  match word? c with
  | some (found, after) => if found = w then some after else none
  | none => none

def isKeyword (w : String) (c : Cursor) : Bool := (keyword? w c).isSome

/-- Words that are no names. -/
def reservedWords : List String :=
  ["break", "case", "catch", "class", "const", "continue", "debugger", "default", "delete", "do",
    "else", "enum", "export", "extends", "false", "finally", "for", "function", "if", "import", "in",
    "instanceof", "new", "null", "return", "super", "switch", "this", "throw", "true", "try",
    "typeof", "var", "void", "while", "with"]

/-- A name. -/
def name? (c : Cursor) : Option (String × Cursor) :=
  match word? c with
  | some (w, after) => if reservedWords.contains w then none else some (w, after)
  | none => none

/-- A private name of a class. -/
def privateName? (c : Cursor) : Option Cursor :=
  let c := ahead c
  match c.rest with
  | '#' :: d :: _ => if isNameStart d then some ((c.advance 1).skipWhile isNameChar) else none
  | _ => none

/-! ## Punctuation -/

/-- Punctuation, longer pieces before those they start with. -/
def punctuation : List String :=
  [">>>=", "...", "===", "!==", "**=", "<<=", ">>=", ">>>", "&&=", "||=", "??=", "=>", "==", "!=",
    "<=", ">=", "&&", "||", "??", "?.", "++", "--", "+=", "-=", "*=", "/=", "%=", "&=", "|=", "^=",
    "<<", ">>", "**", "\x7b", "\x7d", "(", ")", "[", "]", ";", ",", "<", ">", "+", "-", "*", "/",
    "%", "&", "|", "^", "!", "~", "?", ":", "=", ".", "@"]

/-- Whether a comment that is not closed starts here. -/
def startsComment : List Char → Bool
  | '/' :: '*' :: _ => true
  | _ => false

/-- The punctuation that comes next, the longest that fits. -/
def punct? (c : Cursor) : Option (String × Cursor) :=
  let c := ahead c
  if startsComment c.rest then none
  else
    match punctuation.find? (c.startsWith ·) with
    | some "?." =>
      -- A digit after the point belongs to a number.
      if (c.rest.drop 2).head?.any Char.isDigit then some ("?", c.advance 1)
      else some ("?.", c.advance 2)
    | some p => some (p, c.advance p.length)
    | none => none

/-- One given piece of punctuation. -/
def sym? (s : String) (c : Cursor) : Option Cursor :=
  match punct? c with
  | some (found, after) => if found = s then some after else none
  | none => none

def isSym (s : String) (c : Cursor) : Bool := (sym? s c).isSome

/-- One angle bracket, also if more of them follow. -/
def angle? (bracket : Char) (c : Cursor) : Option Cursor :=
  let c := ahead c
  if c.rest.head? = some bracket then some (c.advance 1) else none

/-- The end of a statement: a semicolon, or a place where it can be left out. -/
def endStatement? (c : Cursor) : Option Cursor :=
  match sym? ";" c with
  | some after => some after
  | none => if isSym "\x7d" c || isDone c || breaksLine c then some c else none

/-! ## Literals -/

/-- The length of a string after its opening quote. -/
def stringLength? (quote : Char) : List Char → Option Nat
  | [] => none
  | '\\' :: '\r' :: '\n' :: rest => (stringLength? quote rest).map (· + 3)
  | '\\' :: _ :: rest => (stringLength? quote rest).map (· + 2)
  | c :: rest =>
    if c = quote then some 1
    else if c = '\n' ∨ c = '\r' then none
    else (stringLength? quote rest).map (· + 1)

/-- A string, with its quotes. -/
def string? (c : Cursor) : Option (String × Cursor) := do
  let c := ahead c
  match c.rest with
  | '"' :: rest =>
    let n ← stringLength? '"' rest
    some (String.ofList (c.rest.take (n + 1)), c.advance (n + 1))
  | '\'' :: rest =>
    let n ← stringLength? '\'' rest
    some (String.ofList (c.rest.take (n + 1)), c.advance (n + 1))
  | _ => none

def isDigitChar (c : Char) : Bool := c.isDigit || c == '_'

/-- How many digits come first. -/
def digitsLength (cs : List Char) : Nat := (cs.takeWhile isDigitChar).length

/-- The length of an exponent, if one comes first. -/
def exponentLength (cs : List Char) : Nat :=
  match cs with
  | e :: rest =>
    if e = 'e' ∨ e = 'E' then
      let sign := if rest.head? = some '+' ∨ rest.head? = some '-' then 1 else 0
      match digitsLength (rest.drop sign) with
      | 0 => 0
      | n + 1 => n + 2 + sign
    else 0
  | [] => 0

/-- The length of a number that is written in tens. -/
def decimalLength (cs : List Char) : Nat :=
  let whole := digitsLength cs
  let point :=
    match cs.drop whole with
    | '.' :: rest => digitsLength rest + 1
    | _ => 0
  let n := whole + point
  let e := exponentLength (cs.drop n)
  let big := if (cs.drop (n + e)).head? = some 'n' then 1 else 0
  n + e + big

/-- The length of a number in another base. -/
def basedLength (cs : List Char) : Nat := (cs.takeWhile fun c => c.isAlphanum || c == '_').length

/-- A number; no name may follow it directly. -/
def number? (c : Cursor) : Option Cursor :=
  let c := ahead c
  let n :=
    match c.rest with
    | '0' :: b :: _ => if "xXoObB".toList.contains b then basedLength c.rest else decimalLength c.rest
    | '.' :: d :: _ => if d.isDigit then decimalLength c.rest else 0
    | d :: _ => if d.isDigit then decimalLength c.rest else 0
    | [] => 0
  if n = 0 ∨ (c.rest.drop n).head?.any isNameChar then none else some (c.advance n)

/-- The length of a regular expression after its opening slash, without its flags. -/
def regexLength? (bracketed : Bool) : List Char → Option Nat
  | [] => none
  | '\\' :: d :: rest =>
    if isLineEnd d then none else (regexLength? bracketed rest).map (· + 2)
  | c :: rest =>
    if isLineEnd c then none
    else if c = '/' ∧ !bracketed then some 1
    else
      (regexLength? (if c = '[' then true else if c = ']' then false else bracketed) rest).map (· + 1)

/-- A regular expression. -/
def regex? (c : Cursor) : Option Cursor :=
  let c := ahead c
  match c.rest with
  | '/' :: '*' :: _ => none
  | '/' :: rest => (regexLength? false rest).map fun n => (c.advance (n + 1)).skipWhile isNameChar
  | _ => none

/-! ## Template literals -/

/-- What ends a stretch of text in a template literal. -/
inductive TextEnd where
  | backtick
  | expression
  deriving Repr, DecidableEq

/-- The length of the text of a template literal, with what ends it. -/
def literalText? : List Char → Option (Nat × TextEnd)
  | [] => none
  | '\\' :: _ :: rest => (literalText? rest).map fun (n, e) => (n + 2, e)
  | '`' :: _ => some (1, .backtick)
  | '$' :: '{' :: _ => some (2, .expression)
  | _ :: rest => (literalText? rest).map fun (n, e) => (n + 1, e)

/-- Whether a template literal comes next. -/
def startsLiteral (c : Cursor) : Bool := (ahead c).rest.head? == some '`'

/-! ## Brackets -/

/-- The bracket that closes an opening one. -/
def closing? : Char → Option Char
  | '(' => some ')'
  | '[' => some ']'
  | '{' => some '}'
  | _ => none

/-- Passes over everything up to the closing of the brackets that are open, the innermost first. A
backtick among them is a template literal. -/
def passBrackets : Nat → List Char → Cursor → Option Cursor
  | 0, _, _ => none
  | _, [], c => some c
  | fuel + 1, '`' :: outer, c =>
    match c.rest with
    | [] => none
    | '\\' :: _ => passBrackets fuel ('`' :: outer) (c.advance 2)
    | '`' :: _ => passBrackets fuel outer (c.advance 1)
    | '$' :: '{' :: _ => passBrackets fuel ('}' :: '`' :: outer) (c.advance 2)
    | _ => passBrackets fuel ('`' :: outer) (c.advance 1)
  | fuel + 1, close :: outer, c =>
    let c := ahead c
    match c.rest with
    | [] => none
    | d :: _ =>
      if d = '"' ∨ d = '\'' then
        match string? c with
        | some (_, after) => passBrackets fuel (close :: outer) after
        | none => none
      else if d = '`' then passBrackets fuel ('`' :: close :: outer) (c.advance 1)
      else if d = close then passBrackets fuel outer (c.advance 1)
      else
        match closing? d with
        | some inner => passBrackets fuel (inner :: close :: outer) (c.advance 1)
        | none =>
          if d = ')' ∨ d = ']' ∨ d = '}' then none
          else passBrackets fuel (close :: outer) (c.advance 1)

/-- Passes over a pair of brackets that comes next, with all in it. -/
def brackets? (bracket : Char) (c : Cursor) : Option Cursor := do
  let c := ahead c
  let close ← closing? bracket
  if c.rest.head? = some bracket then passBrackets (2 * c.rest.length + 2) [close] (c.advance 1)
  else none

/-- Passes over angle brackets of which `depth` are open. -/
def passAngles : Nat → Nat → Cursor → Option Cursor
  | 0, _, _ => none
  | _, 0, c => some c
  | fuel + 1, depth + 1, c =>
    let c := ahead c
    match c.rest with
    | [] => none
    | '=' :: '>' :: _ => passAngles fuel (depth + 1) (c.advance 2)
    | '<' :: _ => passAngles fuel (depth + 2) (c.advance 1)
    | '>' :: _ => passAngles fuel depth (c.advance 1)
    | d :: _ =>
      if d = '"' ∨ d = '\'' then
        match string? c with
        | some (_, after) => passAngles fuel (depth + 1) after
        | none => none
      else if d = '`' then
        match passBrackets (2 * c.rest.length + 2) ['`'] (c.advance 1) with
        | some after => passAngles fuel (depth + 1) after
        | none => none
      else if (closing? d).isSome then
        match brackets? d c with
        | some after => passAngles fuel (depth + 1) after
        | none => none
      else if d = ')' ∨ d = ']' ∨ d = '}' ∨ d = ';' then none
      else passAngles fuel (depth + 1) (c.advance 1)

/-- Passes over type parameters, if they come next. -/
def skipTypeParams (c : Cursor) : Option Cursor :=
  match angle? '<' c with
  | some after => passAngles (2 * c.rest.length + 2) 1 after
  | none => some c

end TypedTemplate.Script
