/-
Native templates in a script. They are no part of the script's own language, so they are looked for
before it is read: strings, comments, regular expressions and literals are passed over, the brackets
around a place tell what stands there, and the templates found can be masked so that what is left can
be read as a script.
-/
import TypedTemplate.Script.ClassHead
import TypedTemplate.Span

namespace TypedTemplate.Script

open Text

/-- Where a native template stands. -/
inductive Placement where
  /-- Directly in the body of a class. -/
  | classMember
  /-- Where a value is due. -/
  | expression
  /-- On its own at the top of a module. -/
  | topLevel
  deriving Repr, DecidableEq, Inhabited

/-- A template element in a script: all of it, and what stands between its tags. -/
structure NativeTemplate where
  range : Span
  content : Span
  placement : Placement
  deriving Repr, DecidableEq, Inhabited

/-- A template element that is not closed, by the span of its opening tag. -/
structure UnclosedTemplate where
  span : Span
  deriving Repr, DecidableEq, Inhabited

def UnclosedTemplate.message : UnclosedTemplate → String
  | _ => "Unclosed <template> tag"

namespace Native

def openTag : List Char := "<template".toList

def closeTag : List Char := "</template>".toList

/-- Whether an opening tag comes first: its name has to end there. -/
def atOpenTag (cs : List Char) : Bool :=
  match stripStart? openTag cs with
  | some (c :: _) => c == '>' || c == ' ' || c == '\t' || c == '\n' || c == '\r'
  | _ => false

/-! ## The extent of a token -/

/-- How many characters belong to a string after its opening quote. A line feed ends it. -/
def stringLength (quote : Char) : List Char → Nat
  | [] => 0
  | [c] => if c = '\n' then 0 else 1
  | c :: d :: rest =>
    if c = '\\' then stringLength quote rest + 2
    else if c = '\n' then 0
    else if c = quote then 1
    else stringLength quote (d :: rest) + 1

/-- How many characters belong to a regular expression after its opening slash, with its flags. A line
feed ends it, and a slash in brackets does not. -/
def regexLength (bracketed : Bool) : List Char → Nat
  | [] => 0
  | [c] => if c = '\n' then 0 else 1
  | c :: d :: rest =>
    if c = '\\' then regexLength bracketed rest + 2
    else if c = '\n' then 0
    else if c = '/' ∧ !bracketed then ((d :: rest).takeWhile Char.isAlpha).length + 1
    else regexLength (if c = '[' then true else if c = ']' then false else bracketed) (d :: rest) + 1

/-- How many characters belong to a block comment after its slash. -/
def blockCommentLength (cs : List Char) : Nat :=
  match splitAtFirst "*/".toList (cs.drop 1) with
  | some (inside, _) => inside.length + 3
  | none => cs.length

/-- How many characters precede the first opening tag whose name ends within `limit` characters. -/
def openTagWithin (limit : Nat) : List Char → Option Nat
  | [] => none
  | c :: cs =>
    if limit < openTag.length then none
    else if atOpenTag (c :: cs) then some 0
    else (openTagWithin (limit - 1) cs).map (· + 1)

/-- How many characters precede the closing tag of an element that opened before; `depth` elements have
opened since. The next closing tag is looked for, and an opening tag before it: an element that opens is
gone into, and without one the closing tag closes the latest element. -/
def contentLength (depth : Nat) : List Char → Option Nat
  | [] => none
  | c :: cs =>
    match splitAtFirst closeTag (c :: cs) with
    | none => none
    | some (inside, _) =>
      match openTagWithin inside.length (c :: cs), depth with
      | some n, depth =>
        (contentLength (depth + 1) ((c :: cs).drop (n + openTag.length))).map (· + (n + openTag.length))
      | none, 0 => some inside.length
      | none, depth + 1 =>
        (contentLength depth ((c :: cs).drop (inside.length + closeTag.length))).map
          (· + (inside.length + closeTag.length))
termination_by cs => cs.length
decreasing_by
  all_goals
    have : 0 < openTag.length ∧ 0 < closeTag.length := by decide
    simp only [List.length_drop, List.length_cons]
    omega

/-- The lengths of the opening tag and the content of an element that comes first. -/
def extent? (cs : List Char) : Option (Nat × Nat) := do
  let (attributes, rest) ← splitAtFirst ['>'] cs
  let content ← contentLength 0 rest
  some (attributes.length + 1, content)

/-! ## Where a place is -/

/-- What is open around a place. -/
inductive Frame where
  | classBody
  | block
  | paren
  /-- An expression in a template literal. -/
  | interpolation
  /-- The text of a template literal. -/
  | literal
  deriving Repr, DecidableEq, Inhabited

/-- How far a script has been read. `seen` is all of it so far and `last` all up to its last character
that counts, both with the last character first. -/
structure Progress where
  pos : Nat := 0
  seen : List Char := []
  last : List Char := []
  frames : List Frame := []

namespace Progress

/-- Passes over characters, which count or do not. -/
def pass (p : Progress) (cs : List Char) (counts : Bool) : Progress :=
  let seen := cs.reverse ++ p.seen
  { p with pos := p.pos + byteLength cs, seen, last := if counts then seen else p.last }

def push (p : Progress) (f : Frame) : Progress := { p with frames := f :: p.frames }

/-- Leaves the innermost frame if it is one of these. -/
def popIf (p : Progress) (kinds : List Frame) : Progress :=
  match p.frames with
  | f :: outer => if kinds.contains f then { p with frames := outer } else p
  | [] => p

/-- The ASCII word that the characters so far end in. -/
def lastWord (p : Progress) : List Char :=
  (p.last.takeWhile fun c => c.isAlphanum || c == '_' || c == '$').reverse

/-- Whether a word that a value follows was the last thing read. -/
def afterKeyword (p : Progress) : Bool :=
  ["default", "return", "yield", "await", "typeof", "void"].any fun w => w.toList == p.lastWord

/-- Whether the last character read is one of these. -/
def lastIn (p : Progress) (cs : String) : Bool := p.last.head?.any cs.toList.contains

/-- Whether a slash starts a regular expression. -/
def regexAllowed (p : Progress) : Bool :=
  p.last.isEmpty || p.lastIn "(,=:[!&|?\x7b\x7d;" || p.afterKeyword

/-- Where a template would stand. -/
def placement (p : Progress) : Placement :=
  match p.frames with
  | .classBody :: _ => .classMember
  | _ :: _ => .expression
  | [] => if p.lastIn "=(,:?[!&|>" || p.afterKeyword then .expression else .topLevel

/-- What an opening brace opens, by the text since the last brace or semicolon. -/
def braceFrame (p : Progress) : Frame :=
  let head := p.seen.takeWhile fun c => c != ';' && c != '{' && c != '}'
  if isClassHead head.reverse then .classBody else .block

/-- An element of which the opening tag and the content have these lengths. -/
def template (p : Progress) (cs : List Char) (tag content : Nat) : NativeTemplate :=
  let start := p.pos + byteLength (cs.take tag)
  let stop := start + byteLength ((cs.drop tag).take content)
  ⟨⟨p.pos, stop + closeTag.length⟩, ⟨start, stop⟩, p.placement⟩

end Progress

/-! ## The scan -/

/-- White space that does not count. -/
def isIdle (c : Char) : Bool := c == ' ' || c == '\t' || c == '\n' || c == '\x0c' || c == '\r'

/-- One step of the scan: how many characters it takes beside the first, the progress after it, and the
template that it found. -/
structure Step where
  taken : Nat
  progress : Progress
  found : Option NativeTemplate := none

/-- A step that takes `n` characters beside the first. -/
def Step.take (p : Progress) (c : Char) (cs : List Char) (n : Nat) (counts : Bool) : Step :=
  ⟨n, p.pass (c :: cs.take n) counts, none⟩

/-- A step in the text of a template literal. -/
def literalStep (p : Progress) (c : Char) (cs : List Char) : Step :=
  if c = '\\' then .take p c cs 1 false
  else if c = '`' then .take (p.popIf [.literal]) c cs 0 true
  else if c = '$' ∧ cs.head? = some '{' then .take (p.push .interpolation) c cs 1 true
  else .take p c cs 0 false

/-- A step in code. -/
def codeStep (p : Progress) (c : Char) (cs : List Char) : Except UnclosedTemplate Step :=
  if c = '\'' ∨ c = '"' then .ok (.take p c cs (stringLength c cs) true)
  else if c = '`' then .ok (.take (p.push .literal) c cs 0 true)
  else if c = '/' ∧ cs.head? = some '/' then
    .ok (.take p c cs (cs.takeWhile (· != '\n')).length false)
  else if c = '/' ∧ cs.head? = some '*' then .ok (.take p c cs (blockCommentLength cs) false)
  else if c = '/' ∧ p.regexAllowed then .ok (.take p c cs (regexLength false cs) true)
  else if atOpenTag (c :: cs) then
    match extent? (c :: cs) with
    | none => .error ⟨⟨p.pos, p.pos + openTag.length⟩⟩
    | some (tag, content) =>
      .ok { Step.take p c cs (tag + content + closeTag.length - 1) true with
        found := some (p.template (c :: cs) tag content) }
  else if c = '{' then .ok (.take (p.push p.braceFrame) c cs 0 true)
  else if c = '(' ∨ c = '[' then .ok (.take (p.push .paren) c cs 0 true)
  else if c = ')' ∨ c = ']' then .ok (.take (p.popIf [.paren]) c cs 0 true)
  else if c = '}' then
    .ok (.take (p.popIf [.classBody, .block, .interpolation]) c cs 0 true)
  else .ok (.take p c cs 0 (!isIdle c))

def step (p : Progress) (c : Char) (cs : List Char) : Except UnclosedTemplate Step :=
  if p.frames.head? = some .literal then .ok (literalStep p c cs) else codeStep p c cs

/-- The templates in what is left of a script. -/
def scanFrom (p : Progress) : List Char → Except UnclosedTemplate (List NativeTemplate)
  | [] => .ok []
  | c :: cs =>
    match step p c cs with
    | .error e => .error e
    | .ok s => do
      let rest ← scanFrom s.progress (cs.drop s.taken)
      return s.found.toList ++ rest
termination_by cs => cs.length
decreasing_by simp only [List.length_drop, List.length_cons]; omega

/-- The native templates of a script, in the order of the text. -/
def scan (source : String) : Except UnclosedTemplate (List NativeTemplate) :=
  scanFrom {} source.toList

/-! ## Masking -/

/-- What stands in the place of a template. -/
def placeholder : Placement → List Char
  | .classMember => "static\x7b".toList
  | .expression => "null".toList
  | .topLevel => []

/-- The character at `pos` of a masked template: line feeds stay, and all else becomes white space of
the same length around the placeholder. -/
def maskedChar (t : NativeTemplate) (pos : Nat) (c : Char) : List Char :=
  match (placeholder t.placement)[pos - t.range.start]? with
  | some d => [d]
  | none =>
    if t.placement = .classMember ∧ pos + 1 = t.range.stop then ['}']
    else if c = '\n' then ['\n']
    else List.replicate c.utf8Size ' '

def maskFrom (templates : List NativeTemplate) (pos : Nat) : List Char → List Char
  | [] => []
  | c :: cs =>
    (match templates.find? (·.range.contains pos) with
     | some t => maskedChar t pos c
     | none => [c]) ++ maskFrom templates (pos + c.utf8Size) cs

/-- A script with its templates masked; positions and lines stay as they are. -/
def mask (templates : List NativeTemplate) (source : String) : String :=
  String.ofList (maskFrom templates 0 source.toList)

end Native

end TypedTemplate.Script
