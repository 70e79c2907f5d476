/-
Texts shown on one line. Line breaks, tabs, quotes and backslashes are written as escapes, and so is
every character that does not print; a character that combines with the one before it is escaped
only where it comes first.
-/
import TypedTemplate.Text.Printable

namespace TypedTemplate.Text

/-- A code point between braces, in lower-case hexadecimal. -/
def codePoint (c : Char) : String :=
  "\\u\x7b" ++ String.ofList (Nat.toDigits 16 c.toNat) ++ "\x7d"

/-- One character of a shown text. -/
def escapeChar (first : Bool) (c : Char) : String :=
  match c with
  | '\x00' => "\\0"
  | '\t' => "\\t"
  | '\r' => "\\r"
  | '\n' => "\\n"
  | '\\' => "\\\\"
  | '"' => "\\\""
  | '\'' => "\\'"
  | c =>
    if first && isCombining c then codePoint c
    else if isPrintable c then c.toString
    else codePoint c

/-- A text shown on one line. -/
def escaped (s : String) : String :=
  match s.toList with
  | [] => ""
  | c :: cs => escapeChar true c ++ String.join (cs.map (escapeChar false))

end TypedTemplate.Text
