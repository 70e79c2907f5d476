/-
Spans: half-open stretches of a text, counted in bytes. The same type serves positions in a
template, in a script and in generated code; `shift` moves a span from one of these into another.
-/
import TypedTemplate.Text.Measure

namespace TypedTemplate

/-- The last position: positions have 32 bits. -/
def maxPosition : Nat := 4294967295

/-- A length as a position. Of a length that does not fit, the last 32 bits are kept. -/
def position (length : Nat) : Nat := length % (maxPosition + 1)

/-- The bound of positions: up to it a length is kept as it is. -/
theorem position_of_le {length : Nat} (h : length ≤ maxPosition) : position length = length :=
  Nat.mod_eq_of_lt (Nat.lt_succ_of_le h)

/-- The bytes from `start` up to, and without, `stop`. -/
structure Span where
  start : Nat
  stop : Nat
  deriving Repr, DecidableEq, Inhabited

namespace Span

/-- The span without bytes at `offset`. -/
def empty (offset : Nat) : Span := ⟨offset, offset⟩

def length (s : Span) : Nat := s.stop - s.start

def isEmpty (s : Span) : Bool := s.start == s.stop

/-- Whether `offset` is the position of a byte of the span. -/
def contains (s : Span) (offset : Nat) : Bool := s.start ≤ offset && offset < s.stop

/-- Whether `offset` lies in the span, its end included. -/
def touches (s : Span) (offset : Nat) : Bool := s.start ≤ offset && offset ≤ s.stop

/-- Whether all of `t` lies in `s`. -/
def includes (s t : Span) : Bool := s.start ≤ t.start && t.stop ≤ s.stop

/-- Whether two spans share a position. A span without bytes meets another one when it sits inside
it, its start counted and its end not. -/
def intersects (s t : Span) : Bool :=
  if t.isEmpty then s.contains t.start
  else if s.isEmpty then t.contains s.start
  else t.start < s.stop && s.start < t.stop

/-- The least span that includes both. -/
def cover (s t : Span) : Span := ⟨min s.start t.start, max s.stop t.stop⟩

/-- Moves a span forward. -/
def shift (s : Span) (delta : Nat) : Span := ⟨s.start + delta, s.stop + delta⟩

/-- The text that a span covers, if it lies in the text and cuts no character. -/
def slice (s : Span) (text : String) : Option String := Text.slice text s.start s.stop

/-- By start, then by end. -/
def less (s t : Span) : Bool := s.start < t.start || (s.start == t.start && s.stop < t.stop)

/-- The span with its ends as positions. -/
def kept (s : Span) : Span := ⟨position s.start, position s.stop⟩

/-- The whole of a text. -/
def ofText (text : String) : Span := ⟨0, Text.size text⟩

/-- A span as `start:stop`. -/
def render (s : Span) : String := toString s.start ++ ":" ++ toString s.stop

end Span

end TypedTemplate
