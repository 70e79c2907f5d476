/-
Lines and columns of byte positions. A line ends after its line feed; columns count bytes.
-/
import TypedTemplate.Search
import TypedTemplate.Text.Measure

namespace TypedTemplate

/-- A line and a byte column in it, both counted from zero. -/
structure LineCol where
  line : Nat
  col : Nat
  deriving Repr, DecidableEq

/-- Line and column counted from one, as editors show them. -/
def LineCol.oneBased (p : LineCol) : LineCol := ⟨p.line + 1, p.col + 1⟩

/-- Where the lines of a text start, and how long the text is. -/
structure LineIndex where
  starts : List Nat
  size : Nat

namespace LineIndex

open Text

/-- The position after each line feed, for characters that start at `pos`. -/
def startsAfter (pos : Nat) : List Char → List Nat
  | [] => []
  | c :: cs =>
    if c = '\n' then (pos + c.utf8Size) :: startsAfter (pos + c.utf8Size) cs
    else startsAfter (pos + c.utf8Size) cs

def ofText (text : String) : LineIndex := ⟨0 :: startsAfter 0 text.toList, Text.size text⟩

def lineCount (ix : LineIndex) : Nat := ix.starts.length

/-- The line at which a search for a position ends: the one that starts there, or the one before the place where
such a line would have to be put. -/
def lineOf : Except Nat Nat → Nat
  | .ok line => line
  | .error line => line - 1

def lineCol? (ix : LineIndex) (offset : Nat) : Option LineCol :=
  if ix.size < offset then none
  else
    let line := lineOf (binarySearch offset ix.starts)
    (ix.starts[line]?).map fun start => ⟨line, offset - start⟩

/-- The position of a line and column; the column may run past the line's end. -/
def offset? (ix : LineIndex) (p : LineCol) : Option Nat := (ix.starts[p.line]?).map (· + p.col)

/-- Where a line starts. -/
def lineStart? (ix : LineIndex) (line : Nat) : Option Nat := ix.starts[line]?

end LineIndex

end TypedTemplate
