/-
Classes: their heads, their members, and where their bodies end. The literals of a class come in the
order decorators, body, superclass.
-/
import TypedTemplate.Script.Reader.Binding

namespace TypedTemplate.Script.Reader

/-- A class: its name, the literals in it, and the place of its closing brace. -/
structure ClassPart where
  name : Option String
  found : List Embedded
  close : Nat

/-- What goes before the key of a member. -/
structure Modifiers where
  isStatic : Bool := false
  isAccessor : Bool := false

/-- Words that can go before a member. -/
def memberModifiers : List String :=
  ["static", "public", "private", "protected", "readonly", "abstract", "override", "declare",
    "accessor", "async", "get", "set"]

/-- Those of them after which the line can end. -/
def looseModifiers : List String := ["static", "get", "set"]

/-- A word before a member, if one comes next. -/
def modifier? (c : Cursor) : Option (String × Cursor) :=
  match word? c with
  | some (w, after) =>
    if memberModifiers.contains w && (startsKey after || isSym "*" after) &&
        (looseModifiers.contains w || !breaksLine after) then some (w, after)
    else none
  | none => none

def readModifiers (c : Cursor) : Option (Modifiers × Cursor) := do
  let (words, c) ← many (fun c => (modifier? c).isSome) modifier? (bound c) c
  some (⟨words.contains "static", words.contains "accessor"⟩, c)

/-- A signature for any key, if one comes next. -/
def indexSignature? (g : Grammar) (c : Cursor) : Option Cursor := do
  let after ← sym? "[" c
  let (_, after) ← name? after
  let _ ← sym? ":" after
  endStatement? (← skipAnnotation g (← brackets? '[' c))

/-- A method after its key: parameters, decorators, body. -/
def readMethod (g : Grammar) (decorators : List Embedded) (c : Cursor) :
    Option (List Embedded × Cursor) := do
  let (params, c) ← readSignature g c
  if isSym "\x7b" c then
    let (body, c) ← readBody g c
    some (params ++ decorators ++ body, c)
  else some (params ++ decorators, ← endStatement? c)

/-- A property after its key. -/
def readProperty (g : Grammar) (m : Modifiers) (key : Key) (decorators : List Embedded) (c : Cursor) :
    Option (List Embedded × Cursor) := do
  let c ← skipAnnotation g c
  match sym? "=" c with
  | none => some (key.found ++ decorators, ← endStatement? c)
  | some after =>
    let (v, c) ← g.value after
    let c ← endStatement? c
    match v.shape, v.found with
    | .literal, [literal] =>
      if m.isStatic && !m.isAccessor && !key.isPrivate then
        some ([.staticValue key.found literal decorators], c)
      else some (key.found ++ [literal] ++ decorators, c)
    | _, found => some (key.found ++ found ++ decorators, c)

/-- A member of a class. -/
def readMember (g : Grammar) (c : Cursor) : Option (List Embedded × Cursor) := do
  match sym? ";" c with
  | some after => some ([], after)
  | none =>
    let (decorators, c) ← readDecorators g c
    match (keyword? "static" c).bind fun c => if isSym "\x7b" c then some c else none with
    | some body => readBody g body
    | none =>
      let (m, c) ← readModifiers c
      match indexSignature? g c with
      | some after => some ([], after)
      | none =>
        let (key, c) ← readKey g ((sym? "*" c).getD c)
        let c := ((sym? "?" c).orElse fun _ => sym? "!" c).getD c
        if isSym "(" c || isSym "<" c then
          let (found, c) ← readMethod g decorators c
          some (key.found ++ found, c)
        else readProperty g m key decorators c

/-- Members up to a closing brace; the place of the brace comes with them. -/
def readMembers (g : Grammar) : Nat → Cursor → Option ((List Embedded × Nat) × Cursor)
  | 0, _ => none
  | fuel + 1, c =>
    match sym? "\x7d" c with
    | some after => some (([], (ahead c).pos), after)
    | none => do
      let (found, c) ← readMember g c
      let ((rest, close), c) ← readMembers g fuel c
      some ((found ++ rest, close), c)

/-- What a class extends. -/
def readHeritage (g : Grammar) (c : Cursor) : Option (List Embedded × Cursor) := do
  match keyword? "extends" c with
  | none => some ([], c)
  | some after =>
    let (v, c) ← g.operand after
    some (v.found, (typeArgs? g c).getD c)

/-- Passes over the types that a class implements. -/
def skipImplements (g : Grammar) (c : Cursor) : Option Cursor := do
  match keyword? "implements" c with
  | none => some c
  | some after =>
    let (_, c) ← commaSeparated (fun c => (g.type c).map ((), ·)) (bound c) after
    some c

/-- A class after its keyword. -/
def readClass (g : Grammar) (decorators : List Embedded) (c : Cursor) : Option (ClassPart × Cursor) := do
  let (name, c) :=
    match name? c with
    | some (w, after) => if w = "implements" then (none, c) else (some w, after)
    | none => (none, c)
  let c ← skipTypeParams c
  let (heritage, c) ← readHeritage g c
  let c ← skipImplements g c
  let c ← sym? "\x7b" c
  let ((body, close), c) ← readMembers g (bound c) c
  some (⟨name, decorators ++ body ++ heritage, close⟩, c)

end TypedTemplate.Script.Reader
