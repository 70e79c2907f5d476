/-
Texts between double quotes. A quote, a backslash and the control characters are written as escapes,
every other character stands for itself.
-/

namespace TypedTemplate.Text

/-- A control character as four hexadecimal digits. -/
def controlEscape (c : Char) : List Char :=
  let digit (n : Nat) : Char := (Nat.toDigits 16 n).headD '0'
  ['\\', 'u', '0', '0', digit (c.toNat / 16), digit (c.toNat % 16)]

/-- One character between double quotes. -/
def quotedChar (c : Char) : List Char :=
  match c with
  | '"' => ['\\', '"']
  | '\\' => ['\\', '\\']
  | '\x08' => ['\\', 'b']
  | '\t' => ['\\', 't']
  | '\n' => ['\\', 'n']
  | '\x0c' => ['\\', 'f']
  | '\r' => ['\\', 'r']
  | c => if c.toNat < 0x20 then controlEscape c else [c]

/-- The characters of a quoted text, without its quotes. -/
def quotedBody (s : String) : List Char := s.toList.flatMap quotedChar

/-- A text between double quotes. -/
def quoted (s : String) : String := String.ofList ('"' :: quotedBody s ++ ['"'])

end TypedTemplate.Text
