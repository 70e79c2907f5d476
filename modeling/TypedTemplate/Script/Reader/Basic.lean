/-
Reading a script. A reader takes a place in the text and answers what it found with the place after
it, or nothing if the text does not fit. Readers do not call each other around a circle: what nests is
read by the `Grammar` of the level below.
-/
import TypedTemplate.Script.Embedded
import TypedTemplate.Script.Token

namespace TypedTemplate.Script.Reader

/-- What an expression is, as far as it matters to what surrounds it. -/
inductive Shape where
  /-- One name, which ends at `stop`. -/
  | name (text : String) (stop : Nat)
  /-- One literal with a tag. -/
  | literal
  | other
  deriving Repr, DecidableEq

/-- An expression: the literals in it, and what it is. -/
structure Value where
  found : List Embedded := []
  shape : Shape := .other

/-- The readers of what can nest. -/
structure Grammar where
  type : Cursor → Option Cursor
  /-- An expression without commas outside brackets. -/
  value : Cursor → Option (Value × Cursor)
  /-- An expression without operators outside brackets. -/
  operand : Cursor → Option (Value × Cursor)
  /-- An expression that is no arrow function. -/
  operation : Cursor → Option (Value × Cursor)
  pattern : Cursor → Option (List Embedded × Cursor)
  statement : Cursor → Option (List Embedded × Cursor)
  /-- A statement, an import or an export. -/
  part : Cursor → Option (List Embedded × Cursor)

/-- The grammar of a level that nothing reaches. -/
def Grammar.empty : Grammar :=
  ⟨fun _ => none, fun _ => none, fun _ => none, fun _ => none, fun _ => none, fun _ => none,
    fun _ => none⟩

/-! ## Repetition -/

/-- Things of one kind as long as there are any; `more` tells whether there is another. -/
def many {α : Type} (more : Cursor → Bool) (item : Cursor → Option (α × Cursor)) :
    Nat → Cursor → Option (List α × Cursor)
  | 0, _ => none
  | fuel + 1, c =>
    if more c then do
      let (a, c) ← item c
      let (rest, c) ← many more item fuel c
      some (a :: rest, c)
    else some ([], c)

/-- Things with commas between them and maybe one after the last, up to and with a closing bracket. -/
def listUntil {α : Type} (close : String) (item : Cursor → Option (α × Cursor)) :
    Nat → Cursor → Option (List α × Cursor)
  | 0, _ => none
  | fuel + 1, c =>
    match sym? close c with
    | some after => some ([], after)
    | none => do
      let (a, c) ← item c
      match sym? "," c with
      | some c =>
        let (rest, c) ← listUntil close item fuel c
        some (a :: rest, c)
      | none => some ([a], ← sym? close c)

/-- Things with commas between them, one at least. -/
def commaSeparated {α : Type} (item : Cursor → Option (α × Cursor)) :
    Nat → Cursor → Option (List α × Cursor)
  | 0, _ => none
  | fuel + 1, c => do
    let (a, c) ← item c
    match sym? "," c with
    | some c =>
      let (rest, c) ← commaSeparated item fuel c
      some (a :: rest, c)
    | none => some ([a], c)

/-- A bound on the steps of a repetition from a place. -/
def bound (c : Cursor) : Nat := c.rest.length + 2

/-! ## Types -/

/-- Names with points between them, after the first. -/
def passNames : Nat → Cursor → Option Cursor
  | 0, _ => none
  | fuel + 1, c =>
    match sym? "." c with
    | none => some c
    | some after =>
      match word? after with
      | some (_, c) => passNames fuel c
      | none => (privateName? after).bind (passNames fuel)

/-- Type arguments. -/
def typeArgs? (g : Grammar) (c : Cursor) : Option Cursor := do
  let c ← angle? '<' c
  let (_, c) ← commaSeparated (fun c => (g.type c).map ((), ·)) (bound c) c
  angle? '>' c

/-- Passes over type arguments, if they come next on the same line. -/
def skipTypeArgs (g : Grammar) (c : Cursor) : Cursor :=
  if breaksLine c then c else (typeArgs? g c).getD c

/-- Passes over a type annotation, if one comes next. -/
def skipAnnotation (g : Grammar) (c : Cursor) : Option Cursor :=
  match sym? ":" c with
  | some after => g.type after
  | none => some c

/-- Brackets after a type, for lists and for parts of it. -/
def passTypeSuffixes : Nat → Cursor → Option Cursor
  | 0, _ => none
  | fuel + 1, c =>
    if isSym "[" c && !breaksLine c then (brackets? '[' c).bind (passTypeSuffixes fuel) else some c

/-- Words that are types although they are no names. -/
def typeWords : List String := ["void", "null", "this", "true", "false"]

/-- Words that go before a type. -/
def typeModifiers : List String := ["keyof", "unique", "readonly", "infer", "asserts"]

/-- A function type from its parameters on. -/
def functionType? (g : Grammar) (c : Cursor) : Option Cursor := do
  let c ← skipTypeParams c
  let c ← brackets? '(' c
  g.type (← sym? "=>" c)

/-- A type that starts with a word. -/
def wordType? (g : Grammar) (c : Cursor) : Option Cursor := do
  let (w, after) ← word? c
  if w = "new" then functionType? g after
  else if w = "abstract" ∧ isKeyword "new" after then functionType? g (← keyword? "new" after)
  else if typeModifiers.contains w ∧ (g.type after).isSome ∧ !breaksLine after then g.type after
  else if w = "typeof" then
    match keyword? "import" after with
    | some c => some (skipTypeArgs g (← passNames (bound c) (← brackets? '(' c)))
    | none =>
      let (_, c) ← word? after
      some (skipTypeArgs g (← passNames (bound c) c))
  else if w = "import" then
    let c ← brackets? '(' after
    some (skipTypeArgs g (← passNames (bound c) c))
  else if reservedWords.contains w ∧ !typeWords.contains w then none
  else some (skipTypeArgs g (← passNames (bound after) after))

/-- A type without operators outside brackets. -/
def readTypeOperand (g : Grammar) (c : Cursor) : Option Cursor := do
  let c := ahead c
  let after ←
    match c.rest with
    | '(' :: _ =>
      match functionType? g c with
      | some after => some after
      | none => brackets? '(' c
    | '<' :: _ => functionType? g c
    | '{' :: _ => brackets? '{' c
    | '[' :: _ => brackets? '[' c
    | '"' :: _ | '\'' :: _ => (string? c).map (·.2)
    | '`' :: _ => passBrackets (2 * c.rest.length + 2) ['`'] (c.advance 1)
    | '-' :: _ => number? (c.advance 1)
    | d :: _ => if d.isDigit then number? c else wordType? g c
    | [] => none
  passTypeSuffixes (bound after) after

/-- Types with bars and ampersands between them. -/
def readTypeUnion (g : Grammar) : Nat → Cursor → Option Cursor
  | 0, _ => none
  | fuel + 1, c => do
    let c ← readTypeOperand g c
    match punct? c with
    | some ("|", after) | some ("&", after) => readTypeUnion g fuel after
    | _ => some c

/-- A type, with the condition or the predicate that it can be. -/
def readType (g : Grammar) (c : Cursor) : Option Cursor := do
  let c := ((sym? "|" c).orElse fun _ => sym? "&" c).getD c
  let c ← readTypeUnion g (bound c) c
  match word? c with
  | some ("is", after) => if breaksLine c then some c else g.type after
  | some ("extends", after) =>
    let c ← sym? "?" (← g.type after)
    let c ← sym? ":" (← g.type c)
    g.type c
  | _ => some c

end TypedTemplate.Script.Reader
