/-
From JSON values to values of other types. A record is an object, in which unknown fields do not
count and a known one may not come twice, or an array of its fields in order, which may end early;
a record marked as open takes the object form only.
-/
import TypedTemplate.Json.Basic
import TypedTemplate.Table

namespace TypedTemplate.Json

def asString? : Json → Option String
  | .string s => some s
  | _ => none

def asBool? : Json → Option Bool
  | .bool b => some b
  | _ => none

/-- A natural number below 2^32, written as digits only. -/
def asWord? : Json → Option Nat
  | .number literal =>
    if literal.toList.all Char.isDigit then
      let n := literal.toList.foldl (fun n c => 10 * n + (c.toNat - '0'.toNat)) 0
      if n < 4294967296 then some n else none
    else none
  | _ => none

def asList? {α : Type} (f : Json → Option α) : Json → Option (List α)
  | .array items => items.mapM f
  | _ => none

/-- An object as a table; of two values of a key the last one counts. -/
def asTable? {α : Type} (f : Json → Option α) : Json → Option (Table α)
  | .object entries => do
    let values ← entries.mapM fun (e : String × Json) => (f e.2).map fun a => (e.1, a)
    some (Table.ofEntries values)
  | _ => none

/-- `null` for an absent value. -/
def asOption? {α : Type} (f : Json → Option α) : Json → Option (Option α)
  | .null => some none
  | j => (f j).map some

/-- A member of a fixed list of names: the name, or an object of that one name with `null`. -/
def asName? {α : Type} (f : String → Option α) : Json → Option α
  | .string s => f s
  | .object [(s, .null)] => f s
  | _ => none

/-- Whether no name comes twice. -/
def distinct : List String → Bool
  | [] => true
  | x :: xs => !xs.contains x && distinct xs

/-- The known fields of an object. -/
def openRecord? (names : List String) : Json → Option (List (String × Json))
  | .object entries =>
    let known := entries.filter fun e => names.contains e.1
    if distinct (known.map Prod.fst) then some known else none
  | _ => none

/-- The known fields of a record in either of its two forms. -/
def record? (names : List String) : Json → Option (List (String × Json))
  | .array items => if items.length ≤ names.length then some (names.zip items) else none
  | j => openRecord? names j

/-- A field that must be there. -/
def field? {α : Type} (fields : List (String × Json)) (name : String) (f : Json → Option α) :
    Option α :=
  (fields.lookup name).bind f

/-- A field with a value of its own when it is absent. -/
def fieldOr? {α : Type} (fields : List (String × Json)) (name : String) (absent : α)
    (f : Json → Option α) : Option α :=
  match fields.lookup name with
  | none => some absent
  | some j => f j

end TypedTemplate.Json
