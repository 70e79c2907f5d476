/-
Modules: imports, exports and statements one after another.
-/
import TypedTemplate.Script.Reader.Statement

namespace TypedTemplate.Script.Reader

/-- A part of a module: the literals in it, and what other parts can refer to. -/
structure ModulePart where
  found : List Embedded := []
  item : Option Item := none

/-! ## Imports -/

/-- A text without the quotes at its ends. -/
def unquoted (text : String) : String :=
  let isQuote (c : Char) : Bool := c == '"' || c == '\''
  String.ofList ((text.toList.dropWhile isQuote).reverse.dropWhile isQuote).reverse

/-- A name as modules pass it on, which may be a string. -/
def exportedName? (c : Cursor) : Option (String × Cursor) :=
  match word? c with
  | some result => some result
  | none => (string? c).map fun (text, c) => (unquoted text, c)

/-- A name in the braces of an import, with the name it has here. -/
def readSpecifierPlain (c : Cursor) : Option ((String × String) × Cursor) := do
  let (exported, after) ← exportedName? c
  match keyword? "as" after with
  | some after =>
    let (here, c) ← name? after
    some ((exported, here), c)
  | none =>
    let (here, c) ← name? c
    some ((here, here), c)

/-- A name in the braces of an import, which may be marked as a type. -/
def readSpecifier (c : Cursor) : Option ((String × String) × Cursor) :=
  let isEnd (c : Cursor) : Bool := isSym "," c || isSym "\x7d" c
  let accept (r : (String × String) × Cursor) : Option ((String × String) × Cursor) :=
    if isEnd r.2 then some r else none
  match (readSpecifierPlain c).bind accept with
  | some result => some result
  | none => ((keyword? "type" c).bind readSpecifierPlain).bind accept

/-- Names in braces, or all names together. -/
def readImportNames (c : Cursor) : Option (List (String × String) × Cursor) := do
  match punct? c with
  | some ("\x7b", after) => listUntil "\x7d" readSpecifier (bound c) after
  | some ("*", after) =>
    let (_, c) ← name? (← keyword? "as" after)
    some ([], c)
  | _ => none

/-- What is imported, up to where it comes from. -/
def readImportClause (c : Cursor) : Option (List (String × String) × Cursor) :=
  match readImportNames c with
  | some result => some result
  | none => do
    let (here, c) ← name? c
    match sym? "," c with
    | some after =>
      let (names, c) ← readImportNames after
      some (("default", here) :: names, c)
    | none => some ([("default", here)], c)

/-- Passes over the attributes of an import, if there are any. -/
def skipAttributes (c : Cursor) : Option Cursor :=
  match (keyword? "with" c).orElse fun _ => if breaksLine c then none else keyword? "assert" c with
  | some after => brackets? '{' after
  | none => some c

/-- Where something is imported from, with the end of the statement. -/
def readSource (c : Cursor) : Option (String × Cursor) := do
  let (text, c) ← string? c
  some (unquoted text, ← endStatement? (← skipAttributes c))

/-- What is imported and where it comes from. -/
def readImportFrom (c : Cursor) : Option (List ImportedName × Cursor) := do
  let (names, c) ← readImportClause c
  let (source, c) ← readSource (← keyword? "from" c)
  some (names.map fun (exported, here) => ⟨source, exported, here⟩, c)

/-- A name for another module or a part of one. -/
def importAlias? (c : Cursor) : Option Cursor := do
  let (_, c) ← name? c
  let (_, c) ← word? (← sym? "=" c)
  match brackets? '(' c with
  | some after => endStatement? after
  | none => endStatement? (← passNames (bound c) c)

/-- An import after its keyword. -/
def readImport (c : Cursor) : Option (ModulePart × Cursor) :=
  let types := keyword? "type" c
  let plain : Option (ModulePart × Cursor) := (readSource c).map fun (_, c) => ({}, c)
  let names (c : Cursor) : Option (ModulePart × Cursor) :=
    (readImportFrom c).map fun (names, c) => ({ item := some (.imports names) }, c)
  let abbreviation (c : Cursor) : Option (ModulePart × Cursor) :=
    (importAlias? c).map fun c => ({}, c)
  plain.orElse fun _ => (names c).orElse fun _ => (types.bind names).orElse fun _ =>
    (abbreviation c).orElse fun _ => types.bind abbreviation

/-! ## Exports -/

/-- A class as a part of a module. -/
def classPart (p : ClassPart) : ModulePart :=
  { found := p.found, item := p.name.map fun name => .namedClass name p.close }

/-- What a module exports by default, after the keyword. -/
def readDefaultExport (g : Grammar) (decorators : List Embedded) (c : Cursor) :
    Option (ModulePart × Cursor) := do
  let (more, c) ← readDecorators g c
  let decorators := decorators ++ more
  let classAfter (c : Cursor) : Option (ModulePart × Cursor) := do
    let (part, c) ← readClass g decorators c
    some ({ found := part.found, item := some (.defaultClass part.close) }, c)
  let functionAfter (c : Cursor) : Option (ModulePart × Cursor) := do
    let c := (sym? "*" c).getD c
    let c := ((name? c).map (·.2)).getD c
    let (params, c) ← readSignature g c
    if isSym "\x7b" c then
      let (body, c) ← readBody g c
      some ({ found := params ++ body }, c)
    else some ({ found := params }, ← endStatement? c)
  let expression : Option (ModulePart × Cursor) := do
    let (v, c) ← g.value c
    let item :=
      match v.shape with
      | .name text _ => some (Item.defaultName text)
      | _ => none
    some ({ found := v.found, item }, ← endStatement? c)
  match word? c with
  | some ("class", after) => classAfter after
  | some ("function", after) => functionAfter after
  | some ("abstract", after) =>
    match keyword? "class" after with
    | some c => classAfter c
    | none => expression
  | some ("interface", after) =>
    match readInterface g after with
    | some c => some ({}, c)
    | none => expression
  | some ("async", after) =>
    match if breaksLine after then none else keyword? "function" after with
    | some c => functionAfter c
    | none => expression
  | _ => expression

/-- A name in the braces of an export. -/
def readExportSpecifierPlain (c : Cursor) : Option (Unit × Cursor) := do
  let (_, c) ← exportedName? c
  match keyword? "as" c with
  | some after =>
    let (_, c) ← exportedName? after
    some ((), c)
  | none => some ((), c)

def readExportSpecifier (c : Cursor) : Option (Unit × Cursor) :=
  let isEnd (c : Cursor) : Bool := isSym "," c || isSym "\x7d" c
  let accept (r : Unit × Cursor) : Option (Unit × Cursor) := if isEnd r.2 then some r else none
  match (readExportSpecifierPlain c).bind accept with
  | some result => some result
  | none => ((keyword? "type" c).bind readExportSpecifierPlain).bind accept

/-- Names that are exported, from here or from another module. -/
def readExportNames (c : Cursor) : Option Cursor := do
  let (_, c) ← listUntil "\x7d" readExportSpecifier (bound c) (← sym? "\x7b" c)
  match keyword? "from" c with
  | some after => (readSource after).map (·.2)
  | none => endStatement? c

/-- All that another module exports. -/
def readExportAll (c : Cursor) : Option Cursor := do
  let c ← sym? "*" c
  let c ←
    match keyword? "as" c with
    | some after => (exportedName? after).map (·.2)
    | none => some c
  (readSource (← keyword? "from" c)).map (·.2)

/-- Names or everything, which may be marked as types. -/
def reexport? (c : Cursor) : Option Cursor :=
  let here (c : Cursor) : Option Cursor := (readExportNames c).orElse fun _ => readExportAll c
  (here c).orElse fun _ => (keyword? "type" c).bind here

/-- A declaration that is exported. -/
def readExportedDeclaration (g : Grammar) (decorators : List Embedded) (c : Cursor) :
    Option (ModulePart × Cursor) := do
  let (more, c) ← readDecorators g c
  let c' := (keyword? "declare" c).getD c
  match classDeclaration? g (decorators ++ more) c' with
  | some (part, c) => some (classPart part, c)
  | none =>
    if isSym "\x7b" c || isSym ";" c then none
    else
      let (w, after) ← word? c
      match keywordStatement? g w after with
      | some result =>
        if ["function", "enum", "var", "const"].contains w then
          let (found, c) ← result
          some ({ found }, c)
        else none
      | none =>
        match if w = "let" then declares? c else none with
        | some after =>
          let (found, c) ← readVariables g after
          some ({ found }, c)
        | none =>
          let (found, c) ←
            match asyncFunction? c with
            | some after => readFunctionDeclaration g after
            | none => typeDeclaration? g w after
          some ({ found }, c)

/-- An export after its keyword. -/
def readExport (g : Grammar) (decorators : List Embedded) (c : Cursor) :
    Option (ModulePart × Cursor) := do
  match keyword? "default" c with
  | some after => readDefaultExport g decorators after
  | none =>
    match sym? "=" c with
    | some after =>
      let (v, c) ← readSequence g after
      some ({ found := v.found }, ← endStatement? c)
    | none =>
      match reexport? c with
      | some c => some ({}, c)
      | none =>
        match keyword? "import" c with
        | some after => (importAlias? after).map fun c => ({}, c)
        | none =>
          match (keyword? "as" c).bind (keyword? "namespace") with
          | some after =>
            let (_, c) ← name? after
            some ({}, ← endStatement? c)
          | none => readExportedDeclaration g decorators c

/-! ## Modules -/

/-- Whether an import declares something, rather than being a value. -/
def isImportDeclaration (after : Cursor) : Bool := !isSym "(" after && !isSym "." after

/-- One part of a module. -/
def readModulePart (g : Grammar) (c : Cursor) : Option (ModulePart × Cursor) := do
  let statement : Option (ModulePart × Cursor) :=
    (readStatement g c).map fun (found, c) => ({ found }, c)
  if isSym "@" c then
    let (decorators, c) ← readDecorators g c
    match keyword? "export" c with
    | some after => readExport g decorators after
    | none => (classDeclaration? g decorators c).map fun (part, c) => (classPart part, c)
  else
    match word? c with
    | some ("import", after) => if isImportDeclaration after then readImport after else statement
    | some ("export", after) => readExport g [] after
    | some ("declare", after) =>
      match if breaksLine after then none else classDeclaration? g [] after with
      | some (part, c) => some (classPart part, c)
      | none => statement
    | some ("class", _) | some ("abstract", _) =>
      match classDeclaration? g [] c with
      | some (part, c) => some (classPart part, c)
      | none => statement
    | _ => statement

/-- What can nest, read up to `depth` levels deep. -/
def grammar : Nat → Grammar
  | 0 => .empty
  | depth + 1 =>
    let below := grammar depth
    { type := readType below
      value := readValue below
      operand := readOperand below
      operation := readOperation below
      pattern := readPattern below
      statement := readStatement below
      part := fun c => (readModulePart below c).map fun (part, c) => (part.found, c) }

/-- Passes over a first line that names an interpreter. -/
def passInterpreter (c : Cursor) : Cursor :=
  if c.startsWith "#!" then c.skipWhile (!isLineEnd ·) else c

/-- The parts of a module to the end of the text. -/
def readModule (g : Grammar) (c : Cursor) : Option (List ModulePart × Cursor) :=
  many (!isDone ·) (readModulePart g) (bound c) c

end Reader

/-- The outline of a module; nothing if the text is no module. -/
def Outline.ofText? (text : String) : Option Outline := do
  let (parts, _) ← Reader.readModule (Reader.grammar (text.length + 2))
    (Reader.passInterpreter (.ofText text))
  some ⟨parts.flatMap (·.found), parts.filterMap (·.item)⟩

end TypedTemplate.Script
