/-
JSON values. Objects keep the order of their entries and may name a key twice; a number keeps the
digits it was written with, so that `1`, `1.0` and `1e0` stay apart.
-/

namespace TypedTemplate

/-- A JSON value as written. -/
inductive Json where
  | null
  | bool (b : Bool)
  | number (literal : String)
  | string (s : String)
  | array (items : List Json)
  | object (entries : List (String × Json))
  deriving Inhabited

namespace Json

/-- A natural number. -/
def nat (n : Nat) : Json := .number (toString n)

/-- An optional value, `null` when absent. -/
def ofOption {α : Type} (f : α → Json) : Option α → Json
  | none => .null
  | some a => f a

/-- The last entry of that key, if the value is an object that has one. -/
def get? (j : Json) (key : String) : Option Json :=
  match j with
  | .object entries => (entries.reverse.find? (·.1 == key)).map (·.2)
  | _ => none

end Json

end TypedTemplate
