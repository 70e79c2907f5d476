/-
Expressions. How operators bind does not matter here, so operands and operators are read one after
the other.
-/
import TypedTemplate.Script.Reader.Class

namespace TypedTemplate.Script.Reader

/-! ## Template literals -/

/-- A template literal after its opening backtick: the literals in its expressions, and whether it has
expressions. -/
def readLiteral (g : Grammar) : Nat → Cursor → Option ((List Embedded × Bool) × Cursor)
  | 0, _ => none
  | fuel + 1, c => do
    let (n, stop) ← literalText? c.rest
    let c := c.advance n
    match stop with
    | .backtick => some (([], false), c)
    | .expression =>
      let (v, c) ← readSequence g c
      let c ← sym? "\x7d" c
      let ((rest, _), c) ← readLiteral g fuel c
      some ((v.found ++ rest, true), c)

/-- A template literal that comes next. -/
def literalAhead (g : Grammar) (c : Cursor) : Option ((List Embedded × Bool) × Cursor) :=
  readLiteral g (bound c) ((ahead c).advance 1)

/-! ## Objects -/

/-- Words before the key of a method. -/
def methodModifiers : List String := ["async", "get", "set"]

/-- Passes over a word before the key of a method, if one comes next. -/
def skipMethodModifier (c : Cursor) : Cursor :=
  match word? c with
  | some (w, after) =>
    if methodModifiers.contains w && (startsKey after || isSym "*" after) then after else c
  | none => c

/-- A property of an object. -/
def readObjectProperty (g : Grammar) (c : Cursor) : Option (List Embedded × Cursor) := do
  if isSym "..." c then readSpread g c
  else
    let (key, after) ← readKey g ((sym? "*" (skipMethodModifier c)).getD (skipMethodModifier c))
    if isSym "(" after || isSym "<" after then
      let (params, c) ← readSignature g after
      let (body, c) ← readBody g c
      some (key.found ++ params ++ body, c)
    else
      match sym? ":" after with
      | some c =>
        let (v, c) ← g.value c
        some (key.found ++ v.found, c)
      | none =>
        let (_, c) ← name? c
        readDefault g c

/-! ## Operands -/

def plain (found : List Embedded) (c : Cursor) : Value × Cursor := (⟨found, .other⟩, c)

/-- Words that are values. -/
def valueWords : List String := ["this", "super", "null", "true", "false"]

/-- An operand that starts with a word. -/
def readWordOperand (g : Grammar) (c : Cursor) : Option (Value × Cursor) := do
  let (w, after) ← word? c
  if w = "function" then
    let (found, c) ← readFunction g after
    some (plain found c)
  else if w = "async" ∧ isKeyword "function" after ∧ !breaksLine after then
    let (found, c) ← readFunction g (← keyword? "function" after)
    some (plain found c)
  else if w = "class" then
    let (part, c) ← readClass g [] after
    some (plain part.found c)
  else if w = "import" then
    match sym? "." after with
    | some c =>
      let (_, c) ← word? c
      some (plain [] c)
    | none =>
      let (found, c) ← readArguments g (← sym? "(" after)
      some (plain found c)
  else if w = "new" then
    let (_, c) ← word? (← sym? "." after)
    some (plain [] c)
  else if valueWords.contains w then some (plain [] after)
  else
    let (text, c) ← name? c
    some (⟨[], .name text c.pos⟩, c)

/-- An operand without what follows it. -/
def readPrimary (g : Grammar) (c : Cursor) : Option (Value × Cursor) := do
  let c := ahead c
  match c.rest with
  | '"' :: _ | '\'' :: _ => (string? c).map fun (_, c) => plain [] c
  | '`' :: _ => (literalAhead g c).map fun ((found, _), c) => plain found c
  | '(' :: _ =>
    let (v, after) ← readSequence g (c.advance 1)
    some (plain v.found (← sym? ")" after))
  | '[' :: _ =>
    let (found, c) ← listUntil "]" (orHole (readSpread g)) (bound c) (c.advance 1)
    some (plain found.flatten c)
  | '{' :: _ =>
    let (found, c) ← listUntil "\x7d" (readObjectProperty g) (bound c) (c.advance 1)
    some (plain found.flatten c)
  | '/' :: _ => (regex? c).map (plain [])
  | '#' :: _ => (privateName? c).map (plain [])
  | '@' :: _ =>
    let (decorators, c) ← readDecorators g c
    let (part, c) ← readClass g decorators (← keyword? "class" c)
    some (plain part.found c)
  | d :: _ => if d.isDigit || d == '.' then (number? c).map (plain []) else readWordOperand g c
  | [] => none

/-- Whether no operand can follow, so that angle brackets before it are type arguments. -/
def endsOperand (c : Cursor) : Bool :=
  isDone c || [")", "]", "\x7d", ":", ";", ",", "."].any (isSym · c)

/-- What follows an operand that starts at `start`: members, calls, literals it is the tag of. -/
def readSuffixes (g : Grammar) (start : Nat) : Nat → Value → Cursor → Option (Value × Cursor)
  | 0, _, _ => none
  | fuel + 1, v, c =>
    if startsLiteral c then do
      let ((inside, interpolated), after) ← literalAhead g c
      let v :=
        match v.shape with
        | .name tag stop =>
          ⟨[.tagged tag stop ⟨start, after.pos⟩ interpolated (v.found ++ inside)], .literal⟩
        | _ => ⟨v.found ++ inside, .other⟩
      readSuffixes g start fuel v after
    else
      let next (found : List Embedded) (c : Cursor) := readSuffixes g start fuel ⟨v.found ++ found, .other⟩ c
      let member (c : Cursor) : Option (Value × Cursor) :=
        match word? c with
        | some (_, c) => next [] c
        | none => (privateName? c).bind (next [])
      let index (c : Cursor) : Option (Value × Cursor) := do
        let (i, c) ← readSequence g c
        next i.found (← sym? "]" c)
      let call (c : Cursor) : Option (Value × Cursor) := do
        let (args, c) ← readArguments g c
        next args c
      match punct? c with
      | some (".", after) => member after
      | some ("?.", after) =>
        match punct? after with
        | some ("[", after) => index after
        | some ("(", after) => call after
        | some ("<", _) => (typeArgs? g after).bind (sym? "(") |>.bind call
        | _ => member after
      | some ("[", after) => index after
      | some ("(", after) => call after
      | some ("!", after) => if breaksLine c then some (v, c) else next [] after
      | some ("<", _) | some ("<<", _) =>
        match typeArgs? g c with
        | some after =>
          if startsLiteral after then readSuffixes g start fuel v after
          else if isSym "(" after then next [] after
          else if endsOperand after then next [] after
          else some (v, c)
        | none => some (v, c)
      | _ => some (v, c)

/-- An operand with all that follows it. -/
def readOperand (g : Grammar) (c : Cursor) : Option (Value × Cursor) := do
  let (v, after) ← readPrimary g c
  readSuffixes g (ahead c).pos (bound after) v after

/-! ## Operators -/

/-- Operators before an operand. -/
def unarySyms : List String := ["!", "~", "+", "-", "++", "--"]

def unaryWords : List String := ["typeof", "void", "delete", "await", "new"]

/-- Operators between operands. -/
def binarySyms : List String :=
  ["**", "*", "/", "%", "+", "-", "<<", ">>", ">>>", "<", ">", "<=", ">=", "==", "!=", "===", "!==",
    "&", "^", "|", "&&", "||", "??"]

def assignmentSyms : List String :=
  ["=", "+=", "-=", "*=", "/=", "%=", "**=", "<<=", ">>=", ">>>=", "&=", "|=", "^=", "&&=", "||=",
    "??="]

/-- Passes over an operator after an operand, if one comes next on the same line. -/
def passIncrement (v : Value) (c : Cursor) : Value × Cursor :=
  match punct? c with
  | some ("++", after) | some ("--", after) => if breaksLine c then (v, c) else plain v.found after
  | _ => (v, c)

/-- An operand with the operators before and after it. -/
def readUnary (g : Grammar) : Nat → Cursor → Option (Value × Cursor)
  | 0, _ => none
  | fuel + 1, c =>
    let below (c : Cursor) : Option (Value × Cursor) := do
      let (v, c) ← readUnary g fuel c
      some (plain v.found c)
    let operand : Option (Value × Cursor) := do
      let (v, c) ← readOperand g c
      some (passIncrement v c)
    match punct? c with
    | some ("<", after) => do
      let c ← angle? '>' (← g.type after)
      below c
    | some (s, after) => if unarySyms.contains s then below after else operand
    | none =>
      match word? c with
      | some (w, after) =>
        if unaryWords.contains w && !(w == "new" && isSym "." after) then
          match below after with
          | some result => some result
          | none => if w = "await" then operand else none
        else operand
      | none => operand

/-- A type after `as` or `satisfies`. -/
def readCast (g : Grammar) (c : Cursor) : Option Cursor :=
  match keyword? "const" c with
  | some after => some after
  | none => g.type c

/-- Operands with operators between them. -/
def readBinary (g : Grammar) : Nat → Value → Cursor → Option (Value × Cursor)
  | 0, _, _ => none
  | fuel + 1, v, c =>
    let next (c : Cursor) : Option (Value × Cursor) := do
      let (w, c) ← readUnary g (bound c) c
      readBinary g fuel ⟨v.found ++ w.found, .other⟩ c
    match punct? c with
    | some (s, after) => if binarySyms.contains s then next after else some (v, c)
    | none =>
      match word? c with
      | some ("instanceof", after) | some ("in", after) => next after
      | some ("as", after) | some ("satisfies", after) =>
        if breaksLine c then some (v, c)
        else do
          let c ← readCast g after
          readBinary g fuel ⟨v.found, .other⟩ c
      | _ => some (v, c)

/-! ## Arrow functions -/

/-- An arrow, which stands on the line of its parameters, and what it leads to. -/
def readArrowBody (g : Grammar) (c : Cursor) : Option (List Embedded × Cursor) := do
  if breaksLine c then none
  else
    let c ← sym? "=>" c
    if isSym "\x7b" c then readBody g c
    else
      let (v, c) ← g.value c
      some (v.found, c)

/-- An arrow function from its parameters on. -/
def readArrow (g : Grammar) (c : Cursor) : Option (Value × Cursor) := do
  let (params, c) ←
    match name? c with
    | some (_, after) => some ([], after)
    | none => readSignature g c
  let (body, c) ← readArrowBody g c
  some (plain (params ++ body) c)

/-- An arrow function. -/
def arrow? (g : Grammar) (c : Cursor) : Option (Value × Cursor) :=
  let asynchronous :=
    match keyword? "async" c with
    | some after => if breaksLine after then none else readArrow g after
    | none => none
  asynchronous.orElse fun _ => readArrow g c

/-! ## Values -/

/-- What a generator hands out, after its keyword. -/
def readYield (g : Grammar) (c : Cursor) : Value × Cursor :=
  if breaksLine c then plain [] c
  else
    match g.value ((sym? "*" c).getD c) with
    | some (v, c) => plain v.found c
    | none => plain [] c

/-- The value of a choice up to and with its colon. The colon of an arrow function's type can be that
of the choice. -/
def readChosen (g : Grammar) (c : Cursor) : Option (Value × Cursor) :=
  let upToColon (r : Value × Cursor) : Option (Value × Cursor) := (sym? ":" r.2).map (r.1, ·)
  ((g.value c).bind upToColon).orElse fun _ => (g.operation c).bind upToColon

/-- Operands and operators, with the choice or the assignment that they start. -/
def readOperation (g : Grammar) (c : Cursor) : Option (Value × Cursor) := do
  let (v, c) ← readUnary g (bound c) c
  let (v, c) ← readBinary g (bound c) v c
  match punct? c with
  | some ("?", after) =>
    let (yes, c) ← readChosen g after
    let (no, c) ← g.value c
    some (plain (v.found ++ yes.found ++ no.found) c)
  | some (s, after) =>
    if assignmentSyms.contains s then
      let (w, c) ← g.value after
      some (plain (v.found ++ w.found) c)
    else some (v, c)
  | none => some (v, c)

/-- An expression without commas outside brackets. -/
def readValue (g : Grammar) (c : Cursor) : Option (Value × Cursor) :=
  match arrow? g c with
  | some result => some result
  | none =>
    match keyword? "yield" c with
    | some after => some (readYield g after)
    | none => readOperation g c

end TypedTemplate.Script.Reader
