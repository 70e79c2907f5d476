/-
Texts measured in bytes. Every position of this library is a number of bytes of the UTF-8 form of a
text, while texts are read character by character: `byteLength` is the measure, `dropBytes` and
`takeBytes` cut a text at a byte position and refuse a position inside a character, and a `Cursor`
is a place in a text together with what follows it.
-/

namespace TypedTemplate.Text

/-! ## The measure -/

/-- The number of bytes that a run of characters takes. -/
def byteLength : List Char → Nat
  | [] => 0
  | c :: cs => c.utf8Size + byteLength cs

/-- The number of bytes of a text. -/
def size (s : String) : Nat := s.utf8ByteSize

@[simp] theorem byteLength_nil : byteLength [] = 0 := rfl

@[simp] theorem byteLength_cons (c : Char) (cs : List Char) :
    byteLength (c :: cs) = c.utf8Size + byteLength cs := rfl

@[simp] theorem byteLength_append (xs ys : List Char) :
    byteLength (xs ++ ys) = byteLength xs + byteLength ys := by
  induction xs with
  | nil => simp
  | cons c cs ih => simp [ih, Nat.add_assoc]

theorem length_le_byteLength (cs : List Char) : cs.length ≤ byteLength cs := by
  induction cs with
  | nil => simp
  | cons c cs ih => have := c.utf8Size_pos; simp; omega

theorem byteLength_eq_size_utf8Encode (cs : List Char) : byteLength cs = cs.utf8Encode.size := by
  induction cs with
  | nil => simp
  | cons c cs ih =>
    have h : [c].utf8Encode.size = c.utf8Size := by
      rw [← String.toByteArray_singleton, String.size_toByteArray, String.utf8ByteSize_singleton]
    rw [List.utf8Encode_cons, ByteArray.size_append, h, byteLength_cons, ih]

/-- The bytes of a text are those of its characters. -/
theorem size_eq_byteLength (s : String) : size s = byteLength s.toList := by
  rw [byteLength_eq_size_utf8Encode, String.utf8Encode_toList]; rfl

@[simp] theorem size_append (s t : String) : size (s ++ t) = size s + size t := by
  simp [size]

/-! ## Cutting at a byte position -/

/-- What follows the first `n` bytes, if they end between two characters. -/
def dropBytes (n : Nat) : List Char → Option (List Char)
  | [] => if n = 0 then some [] else none
  | c :: cs =>
    if n = 0 then some (c :: cs)
    else if c.utf8Size ≤ n then dropBytes (n - c.utf8Size) cs
    else none

/-- The first `n` bytes, if they end between two characters. -/
def takeBytes (n : Nat) : List Char → Option (List Char)
  | [] => if n = 0 then some [] else none
  | c :: cs =>
    if n = 0 then some []
    else if c.utf8Size ≤ n then (takeBytes (n - c.utf8Size) cs).map (c :: ·)
    else none

/-- The text between two byte positions, if both lie in the text, in order and between characters. -/
def slice (text : String) (start stop : Nat) : Option String :=
  if start ≤ stop then
    ((dropBytes start text.toList).bind (takeBytes (stop - start))).map String.ofList
  else none

@[simp] theorem dropBytes_append (xs ys : List Char) :
    dropBytes (byteLength xs) (xs ++ ys) = some ys := by
  induction xs with
  | nil => cases ys <;> simp [dropBytes]
  | cons c cs ih =>
    have h : c.utf8Size ≠ 0 := Nat.ne_of_gt c.utf8Size_pos
    simp [dropBytes, ih, h]

@[simp] theorem takeBytes_append (xs ys : List Char) :
    takeBytes (byteLength xs) (xs ++ ys) = some xs := by
  induction xs with
  | nil => cases ys <;> simp [takeBytes]
  | cons c cs ih =>
    have h : c.utf8Size ≠ 0 := Nat.ne_of_gt c.utf8Size_pos
    simp [takeBytes, ih, h]

/-! ## Searching -/

/-- Splits at the first place where `word` occurs: what stands before it, and what follows it. -/
def splitAtFirst (word : List Char) : List Char → Option (List Char × List Char)
  | [] => if word = [] then some ([], []) else none
  | c :: cs =>
    if word.isPrefixOf (c :: cs) then some ([], (c :: cs).drop word.length)
    else (splitAtFirst word cs).map fun (before, after) => (c :: before, after)

/-- Whether `word` occurs in a run of characters. -/
def occursIn (word cs : List Char) : Bool := (splitAtFirst word cs).isSome

/-- What follows `word`, if the characters start with it. -/
def stripStart? (word cs : List Char) : Option (List Char) :=
  if word.isPrefixOf cs then some (cs.drop word.length) else none

/-- What precedes `word`, if the characters end with it. -/
def stripEnd? (word cs : List Char) : Option (List Char) :=
  (stripStart? word.reverse cs.reverse).map List.reverse

/-- Every occurrence of `word`, read from the left and without overlap, exchanged for `other`. -/
def replaceAll (word other : List Char) (cs : List Char) : List Char :=
  go 0 cs
where
  /-- `skip` characters still belong to an occurrence already exchanged. -/
  go (skip : Nat) : List Char → List Char
    | [] => []
    | c :: cs =>
      match skip with
      | n + 1 => go n cs
      | 0 =>
        if word ≠ [] ∧ word.isPrefixOf (c :: cs) then other ++ go (word.length - 1) cs
        else c :: go 0 cs

end TypedTemplate.Text

namespace TypedTemplate

/-! ## Places in a text -/

/-- A place in a text: how many bytes precede it, and the characters that follow it. -/
structure Cursor where
  pos : Nat
  rest : List Char
  deriving Repr, DecidableEq

namespace Cursor

open Text

/-- The start of a text. -/
def ofText (s : String) : Cursor := ⟨0, s.toList⟩

/-- The place at a byte position of a text, if that position lies between two characters. -/
def at? (s : String) (pos : Nat) : Option Cursor :=
  (dropBytes pos s.toList).map (⟨pos, ·⟩)

/-- Nothing follows. -/
def atEnd (c : Cursor) : Bool := c.rest.isEmpty

/-- The byte position of the end of the text. -/
def stop (c : Cursor) : Nat := c.pos + byteLength c.rest

/-- Passes over `n` characters. -/
def advance (c : Cursor) (n : Nat) : Cursor :=
  ⟨c.pos + byteLength (c.rest.take n), c.rest.drop n⟩

/-- Passes over the characters that satisfy `p`. -/
def skipWhile (p : Char → Bool) (c : Cursor) : Cursor :=
  ⟨c.pos + byteLength (c.rest.takeWhile p), c.rest.dropWhile p⟩

/-- The run of characters that satisfy `p`. -/
def run (p : Char → Bool) (c : Cursor) : String := String.ofList (c.rest.takeWhile p)

/-- Whether the text goes on with `word`. -/
def startsWith (c : Cursor) (word : String) : Bool := word.toList.isPrefixOf c.rest

end Cursor

end TypedTemplate
