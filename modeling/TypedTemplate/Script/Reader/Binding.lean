/-
What binds names: patterns, parameters and the heads of functions.
-/
import TypedTemplate.Script.Reader.Basic

namespace TypedTemplate.Script.Reader

/-! ## Expressions in lists -/

/-- Expressions with commas between them. -/
def readSequence (g : Grammar) (c : Cursor) : Option (Value × Cursor) := do
  let (values, c) ← commaSeparated g.value (bound c) c
  match values with
  | [v] => some (v, c)
  | vs => some (⟨vs.flatMap (·.found), .other⟩, c)

/-- An expression that may be spread. -/
def readSpread (g : Grammar) (c : Cursor) : Option (List Embedded × Cursor) := do
  let (v, c) ← g.value ((sym? "..." c).getD c)
  some (v.found, c)

/-- Arguments of a call, after the opening bracket. -/
def readArguments (g : Grammar) (c : Cursor) : Option (List Embedded × Cursor) := do
  let (args, c) ← listUntil ")" (readSpread g) (bound c) c
  some (args.flatten, c)

/-- A thing of a list that may have holes. -/
def orHole (item : Cursor → Option (List Embedded × Cursor)) (c : Cursor) :
    Option (List Embedded × Cursor) :=
  if isSym "," c then some ([], c) else item c

/-! ## Keys of properties -/

/-- The key of a property: the literals in it, the word it is, and whether it is private. -/
structure Key where
  found : List Embedded := []
  word : Option String := none
  isPrivate : Bool := false

def readKey (g : Grammar) (c : Cursor) : Option (Key × Cursor) :=
  match word? c with
  | some (w, after) => some ({ word := some w }, after)
  | none =>
    match privateName? c with
    | some after => some ({ isPrivate := true }, after)
    | none =>
      match string? c with
      | some (_, after) => some ({}, after)
      | none =>
        match number? c with
        | some after => some ({}, after)
        | none => do
          let (v, c) ← g.value (← sym? "[" c)
          some ({ found := v.found }, ← sym? "]" c)

/-- Whether the key of a property comes next. -/
def startsKey (c : Cursor) : Bool :=
  match (ahead c).rest with
  | d :: _ => isNameStart d || d.isDigit || d == '"' || d == '\'' || d == '[' || d == '#'
  | [] => false

/-! ## Patterns -/

/-- The value that a binding has when nothing else gives it one. -/
def readDefault (g : Grammar) (c : Cursor) : Option (List Embedded × Cursor) :=
  match sym? "=" c with
  | some after => (g.value after).map fun (v, c) => (v.found, c)
  | none => some ([], c)

/-- A pattern with a default. -/
def readElement (g : Grammar) (c : Cursor) : Option (List Embedded × Cursor) := do
  let (found, c) ← g.pattern ((sym? "..." c).getD c)
  let (more, c) ← readDefault g c
  some (found ++ more, c)

/-- A property of an object pattern. -/
def readPatternProperty (g : Grammar) (c : Cursor) : Option (List Embedded × Cursor) := do
  match sym? "..." c with
  | some after => g.pattern after
  | none =>
    let (key, after) ← readKey g c
    match sym? ":" after with
    | some c =>
      let (found, c) ← readElement g c
      some (key.found ++ found, c)
    | none =>
      let (_, c) ← name? c
      readDefault g c

/-- A name, or a pattern that takes a value apart. -/
def readPattern (g : Grammar) (c : Cursor) : Option (List Embedded × Cursor) := do
  match punct? c with
  | some ("\x7b", after) =>
    let (found, c) ← listUntil "\x7d" (readPatternProperty g) (bound c) after
    some (found.flatten, c)
  | some ("[", after) =>
    let (found, c) ← listUntil "]" (orHole (readElement g)) (bound c) after
    some (found.flatten, c)
  | _ =>
    match keyword? "this" c with
    | some after => some ([], after)
    | none => (name? c).map fun (_, c) => ([], c)

/-! ## Decorators and parameters -/

/-- A decorator, after its at sign. -/
def readDecorator (g : Grammar) (c : Cursor) : Option (List Embedded × Cursor) := do
  match sym? "(" c with
  | some after =>
    let (v, c) ← readSequence g after
    some (v.found, ← sym? ")" c)
  | none =>
    let (_, c) ← name? c
    let c ← passNames (bound c) c
    match sym? "(" (skipTypeArgs g c) with
    | some after => readArguments g after
    | none => some ([], c)

def readDecorators (g : Grammar) (c : Cursor) : Option (List Embedded × Cursor) := do
  let (found, c) ← many (isSym "@") (fun c => (sym? "@" c).bind (readDecorator g)) (bound c) c
  some (found.flatten, c)

/-- Words before a parameter that make it a property. -/
def parameterModifiers : List String := ["public", "private", "protected", "readonly", "override"]

/-- Whether a word that makes a parameter a property comes next. -/
def startsModified (c : Cursor) : Bool :=
  match word? c with
  | some (w, after) =>
    parameterModifiers.contains w &&
      ((word? after).isSome || isSym "\x7b" after || isSym "[" after)
  | none => false

/-- One parameter of a function. -/
def readParam (g : Grammar) (c : Cursor) : Option (List Embedded × Cursor) := do
  let (decorators, c) ← readDecorators g c
  let (_, c) ← many startsModified word? (bound c) c
  let (found, c) ← g.pattern ((sym? "..." c).getD c)
  let c ← skipAnnotation g ((sym? "?" c).getD c)
  let (value, c) ← readDefault g c
  some (decorators ++ found ++ value, c)

/-- Type parameters, parameters and the type of the result. -/
def readSignature (g : Grammar) (c : Cursor) : Option (List Embedded × Cursor) := do
  let c ← skipTypeParams c
  let c ← sym? "(" c
  let (params, c) ← listUntil ")" (readParam g) (bound c) c
  some (params.flatten, ← skipAnnotation g c)

/-! ## Bodies -/

/-- Things in braces, one after another. -/
def readBraces (item : Cursor → Option (List Embedded × Cursor)) (c : Cursor) :
    Option (List Embedded × Cursor) := do
  let c ← sym? "\x7b" c
  let (found, c) ← many (!isSym "\x7d" ·) item (bound c) c
  some (found.flatten, ← sym? "\x7d" c)

/-- Statements in braces. -/
def readBody (g : Grammar) (c : Cursor) : Option (List Embedded × Cursor) := readBraces g.statement c

/-- A function after its keyword; its name may be missing. -/
def readFunction (g : Grammar) (c : Cursor) : Option (List Embedded × Cursor) := do
  let c := (sym? "*" c).getD c
  let c := ((name? c).map (·.2)).getD c
  let (params, c) ← readSignature g c
  let (body, c) ← readBody g c
  some (params ++ body, c)

end TypedTemplate.Script.Reader
