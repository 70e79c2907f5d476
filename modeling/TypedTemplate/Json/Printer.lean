/-
Writing JSON, on one line or indented by two spaces.
-/
import TypedTemplate.Json.Basic
import TypedTemplate.Text.Quoted

namespace TypedTemplate.Json

mutual

/-- A value on one line, without white space. -/
def compact : Json → String
  | .null => "null"
  | .bool true => "true"
  | .bool false => "false"
  | .number literal => literal
  | .string s => Text.quoted s
  | .array items => "[" ++ compactItems items ++ "]"
  | .object entries => "\x7b" ++ compactEntries entries ++ "\x7d"

def compactItems : List Json → String
  | [] => ""
  | [j] => compact j
  | j :: js => compact j ++ "," ++ compactItems js

def compactEntries : List (String × Json) → String
  | [] => ""
  | [(k, j)] => Text.quoted k ++ ":" ++ compact j
  | (k, j) :: js => Text.quoted k ++ ":" ++ compact j ++ "," ++ compactEntries js

end

/-- A line break and the indentation of a level. -/
def breakLine (level : Nat) : String := "\n" ++ String.join (List.replicate level "  ")

mutual

/-- A value over several lines, each level indented by two spaces. -/
def pretty (level : Nat) : Json → String
  | .array [] => "[]"
  | .array (j :: js) => "[" ++ prettyItems (level + 1) (j :: js) ++ breakLine level ++ "]"
  | .object [] => "\x7b\x7d"
  | .object (e :: es) => "\x7b" ++ prettyEntries (level + 1) (e :: es) ++ breakLine level ++ "\x7d"
  | .null => "null"
  | .bool true => "true"
  | .bool false => "false"
  | .number literal => literal
  | .string s => Text.quoted s

def prettyItems (level : Nat) : List Json → String
  | [] => ""
  | [j] => breakLine level ++ pretty level j
  | j :: js => breakLine level ++ pretty level j ++ "," ++ prettyItems level js

def prettyEntries (level : Nat) : List (String × Json) → String
  | [] => ""
  | [(k, j)] => breakLine level ++ Text.quoted k ++ ": " ++ pretty level j
  | (k, j) :: js =>
    breakLine level ++ Text.quoted k ++ ": " ++ pretty level j ++ "," ++ prettyEntries level js

end

end TypedTemplate.Json
