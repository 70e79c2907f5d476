/-
Statements, the declarations of types among them, and the parts of a module.
-/
import TypedTemplate.Script.Reader.Expr

namespace TypedTemplate.Script.Reader

/-! ## Pieces of statements -/

/-- An expression in parentheses. -/
def readCondition (g : Grammar) (c : Cursor) : Option (List Embedded × Cursor) := do
  let (v, c) ← readSequence g (← sym? "(" c)
  some (v.found, ← sym? ")" c)

/-- One binding of a declaration. -/
def readDeclarator (g : Grammar) (c : Cursor) : Option (List Embedded × Cursor) := do
  let (found, c) ← g.pattern c
  let c ← skipAnnotation g (if breaksLine c then c else (sym? "!" c).getD c)
  let (value, c) ← readDefault g c
  some (found ++ value, c)

/-- The bindings of a declaration. -/
def readDeclarators (g : Grammar) (c : Cursor) : Option (List Embedded × Cursor) := do
  let (found, c) ← commaSeparated (readDeclarator g) (bound c) c
  some (found.flatten, c)

/-- The bindings of a declaration with its end. -/
def readVariables (g : Grammar) (c : Cursor) : Option (List Embedded × Cursor) := do
  let (found, c) ← readDeclarators g c
  some (found, ← endStatement? c)

/-- Whether a name follows the word `using` such that the word declares it. -/
def startsUsing (c : Cursor) : Bool :=
  !breaksLine c &&
    match name? c with
    | some (w, _) => w != "of" && w != "as"
    | none => false

/-- The word that opens a declaration of variables, if one comes next. -/
def declares? (c : Cursor) : Option Cursor :=
  match word? c with
  | some ("var", after) | some ("const", after) => some after
  | some ("let", after) =>
    if (name? after).isSome || isSym "[" after || isSym "\x7b" after then some after else none
  | some ("using", after) => if startsUsing after then some after else none
  | some ("await", c) =>
    match if breaksLine c then none else keyword? "using" c with
    | some after => if startsUsing after then some after else none
    | none => none
  | _ => none

/-! ## Loops -/

/-- The head of a loop over the parts of a value, after its parenthesis. -/
def readForEach (g : Grammar) (c : Cursor) : Option (List Embedded × Cursor) := do
  let (left, c) ←
    match declares? c with
    | some after => g.pattern after
    | none => (g.operand c).map fun (v, c) => (v.found, c)
  let (w, c) ← word? c
  if w = "of" ∨ w = "in" then
    let (v, c) ← readSequence g c
    some (left ++ v.found, ← sym? ")" c)
  else none

/-- An expression that may be missing before `close`. -/
def readOptional (g : Grammar) (close : String) (c : Cursor) : Option (List Embedded × Cursor) := do
  match sym? close c with
  | some after => some ([], after)
  | none =>
    let (v, c) ← readSequence g c
    some (v.found, ← sym? close c)

/-- The head of a loop that counts, after its parenthesis. -/
def readForCount (g : Grammar) (c : Cursor) : Option (List Embedded × Cursor) := do
  let (start, c) ←
    match declares? c with
    | some after =>
      let (found, c) ← readDeclarators g after
      some (found, ← sym? ";" c)
    | none => readOptional g ";" c
  let (test, c) ← readOptional g ";" c
  let (step, c) ← readOptional g ")" c
  some (start ++ test ++ step, c)

def readFor (g : Grammar) (c : Cursor) : Option (List Embedded × Cursor) := do
  let c ← sym? "(" ((keyword? "await" c).getD c)
  let (head, c) ← (readForEach g c).orElse fun _ => readForCount g c
  let (body, c) ← g.statement c
  some (head ++ body, c)

/-- A loop that tests at its end, after its keyword. The test comes first. -/
def readDoWhile (g : Grammar) (c : Cursor) : Option (List Embedded × Cursor) := do
  let (body, c) ← g.statement c
  let (test, c) ← readCondition g (← keyword? "while" c)
  some (test ++ body, (sym? ";" c).getD c)

/-! ## Choices -/

def readIf (g : Grammar) (c : Cursor) : Option (List Embedded × Cursor) := do
  let (test, c) ← readCondition g c
  let (yes, c) ← g.statement c
  match keyword? "else" c with
  | some after =>
    let (no, c) ← g.statement after
    some (test ++ yes ++ no, c)
  | none => some (test ++ yes, c)

/-- One case, or the statements of the case before. -/
def readCasePart (g : Grammar) (c : Cursor) : Option (List Embedded × Cursor) := do
  match word? c with
  | some ("case", after) =>
    let (v, c) ← readSequence g after
    some (v.found, ← sym? ":" c)
  | some ("default", after) => some ([], ← sym? ":" after)
  | _ => g.statement c

def readSwitch (g : Grammar) (c : Cursor) : Option (List Embedded × Cursor) := do
  let (subject, c) ← readCondition g c
  let c ← sym? "\x7b" c
  if isSym "\x7d" c || isKeyword "case" c || isKeyword "default" c then
    let (cases, c) ← many (!isSym "\x7d" ·) (readCasePart g) (bound c) c
    some (subject ++ cases.flatten, ← sym? "\x7d" c)
  else none

/-- The part of an attempt that handles a failure. -/
def readCatch (g : Grammar) (c : Cursor) : Option (List Embedded × Cursor) := do
  match sym? "(" c with
  | none => readBody g c
  | some after =>
    let (param, c) ← g.pattern after
    let c ← skipAnnotation g c
    let (body, c) ← readBody g (← sym? ")" c)
    some (param ++ body, c)

def readTry (g : Grammar) (c : Cursor) : Option (List Embedded × Cursor) := do
  let (body, c) ← readBody g c
  let (handler, c) ←
    match keyword? "catch" c with
    | some after => readCatch g after
    | none => if isKeyword "finally" c then some ([], c) else none
  match keyword? "finally" c with
  | some after =>
    let (final, c) ← readBody g after
    some (body ++ handler ++ final, c)
  | none => some (body ++ handler, c)

/-! ## Declarations -/

/-- A function with a name, after its keyword; its body may be missing. -/
def readFunctionDeclaration (g : Grammar) (c : Cursor) : Option (List Embedded × Cursor) := do
  let (_, c) ← name? ((sym? "*" c).getD c)
  let (params, c) ← readSignature g c
  if isSym "\x7b" c then
    let (body, c) ← readBody g c
    some (params ++ body, c)
  else some (params, ← endStatement? c)

/-- A class with a name, after its keyword. -/
def readClassDeclaration (g : Grammar) (decorators : List Embedded) (c : Cursor) :
    Option (ClassPart × Cursor) := do
  let (part, c) ← readClass g decorators c
  if part.name.isSome then some (part, c) else none

/-- A class with a name that comes next. -/
def classDeclaration? (g : Grammar) (decorators : List Embedded) (c : Cursor) :
    Option (ClassPart × Cursor) := do
  match word? c with
  | some ("class", after) => readClassDeclaration g decorators after
  | some ("abstract", after) =>
    if breaksLine after then none
    else readClassDeclaration g decorators (← keyword? "class" after)
  | _ => none

/-- One member of an enumeration. -/
def readEnumMember (g : Grammar) (c : Cursor) : Option (List Embedded × Cursor) := do
  let (key, c) ← readKey g c
  let (value, c) ← readDefault g c
  some (key.found ++ value, c)

/-- An enumeration after its keyword. -/
def readEnum (g : Grammar) (c : Cursor) : Option (List Embedded × Cursor) := do
  let (_, c) ← name? c
  let c ← sym? "\x7b" c
  let (members, c) ← listUntil "\x7d" (readEnumMember g) (bound c) c
  some (members.flatten, c)

/-- An interface after its keyword. -/
def readInterface (g : Grammar) (c : Cursor) : Option Cursor := do
  let (_, c) ← name? c
  let c ← skipTypeParams c
  let c ←
    match keyword? "extends" c with
    | some after =>
      let (_, c) ← commaSeparated (fun c => (g.type c).map ((), ·)) (bound after) after
      some c
    | none => some c
  brackets? '{' c

/-- The name of a type after the word `type`. -/
def readTypeAlias (g : Grammar) (c : Cursor) : Option Cursor := do
  let (_, c) ← name? c
  let c ← skipTypeParams c
  endStatement? (← g.type (← sym? "=" c))

/-- A namespace after its keyword. -/
def readNamespace (g : Grammar) (c : Cursor) : Option (List Embedded × Cursor) := do
  let c ←
    match string? c with
    | some (_, after) => some after
    | none =>
      let (_, c) ← name? c
      passNames (bound c) c
  if isSym "\x7b" c then readBraces g.part c else some ([], ← endStatement? c)

/-- A declaration that starts with a word which can also be a name. Nothing if it is a name here. -/
def typeDeclaration? (g : Grammar) (w : String) (after : Cursor) : Option (List Embedded × Cursor) := do
  if breaksLine after then none
  else
    match w with
    | "interface" => some ([], ← readInterface g after)
    | "type" => some ([], ← readTypeAlias g after)
    | "namespace" | "module" => readNamespace g after
    | "global" => if isSym "\x7b" after then readBraces g.part after else none
    | "abstract" =>
      let (part, c) ← readClassDeclaration g [] (← keyword? "class" after)
      some (part.found, c)
    | "declare" => if (word? after).isSome then g.statement after else none
    | _ => none

/-! ## Statements -/

/-- What follows the words `async function`, if they come next. -/
def asyncFunction? (c : Cursor) : Option Cursor := do
  let c ← keyword? "async" c
  if breaksLine c then none else keyword? "function" c

/-- A statement that is an expression, maybe with a label before another statement. -/
def readExpressionStatement (g : Grammar) (c : Cursor) : Option (List Embedded × Cursor) := do
  match (name? c).bind fun (_, after) => sym? ":" after with
  | some after => g.statement after
  | none =>
    let (v, c) ← readSequence g c
    some (v.found, ← endStatement? c)

/-- A statement that starts with a keyword. Nothing if the word is none. -/
def keywordStatement? (g : Grammar) (w : String) (after : Cursor) :
    Option (Option (List Embedded × Cursor)) :=
  match w with
  | "if" => some (readIf g after)
  | "for" => some (readFor g after)
  | "while" | "with" => some do
    let (test, c) ← readCondition g after
    let (body, c) ← g.statement c
    some (test ++ body, c)
  | "do" => some (readDoWhile g after)
  | "switch" => some (readSwitch g after)
  | "try" => some (readTry g after)
  | "throw" => some do
    if breaksLine after then none
    else
      let (v, c) ← readSequence g after
      some (v.found, ← endStatement? c)
  | "return" => some <|
    match endStatement? after with
    | some c => some ([], c)
    | none => do
      let (v, c) ← readSequence g after
      some (v.found, ← endStatement? c)
  | "break" | "continue" => some do
    let c := if breaksLine after then after else ((name? after).map (·.2)).getD after
    some ([], ← endStatement? c)
  | "debugger" => some do some ([], ← endStatement? after)
  | "function" => some (readFunctionDeclaration g after)
  | "class" => some do
    let (part, c) ← readClassDeclaration g [] after
    some (part.found, c)
  | "enum" => some (readEnum g after)
  | "var" => some (readVariables g after)
  | "const" => some <|
    match keyword? "enum" after with
    | some c => readEnum g c
    | none => readVariables g after
  | _ => none

def readStatement (g : Grammar) (c : Cursor) : Option (List Embedded × Cursor) := do
  match punct? c with
  | some ("\x7b", _) => readBody g c
  | some (";", after) => some ([], after)
  | some ("@", _) =>
    let (decorators, c) ← readDecorators g c
    let (part, c) ← classDeclaration? g decorators c
    some (part.found, c)
  | _ =>
    match word? c with
    | none => readExpressionStatement g c
    | some (w, after) =>
      match keywordStatement? g w after, asyncFunction? c, declares? c with
      | some result, _, _ => result
      | none, some after, _ => readFunctionDeclaration g after
      | none, none, some after => readVariables g after
      | none, none, none =>
        match typeDeclaration? g w after with
        | some result => some result
        | none => readExpressionStatement g c

end TypedTemplate.Script.Reader
