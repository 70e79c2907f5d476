/-
The scan for native templates as a walk over bytes. A place is a byte position; the walk goes on byte by byte
and passes over two after a backslash, so a place may lie inside a character or past the end. Text is looked at
in slices, and a slice that leaves the text or cuts a character is a fault, as is a byte past the end and a turn
that does not move on. Masking writes over the bytes of the elements found.

That no such fault occurs, and that the walk finds what the scan by characters finds, is shown in the modules
beside this one.
-/
import TypedTemplate.Proofs.Text.Bytes
import TypedTemplate.Script.Native

namespace TypedTemplate.Script.Native.Walk

open Text

/-- Why a walk stops before the end. -/
inductive Fault where
  /-- A slice that leaves the text or cuts a character. -/
  | slice
  /-- A byte past the end of the text. -/
  | index
  /-- A turn that does not move on. -/
  | stuck
  | unclosed (e : UnclosedTemplate)
  deriving Repr, DecidableEq

/-- How far a walk has come: the position, what is open around it with the innermost frame first, the
position of the last byte that counts, and the elements found. -/
structure Place where
  pos : Nat := 0
  frames : List Frame := []
  last : Option Nat := none
  found : List NativeTemplate := []
  deriving Repr, DecidableEq

section

variable (cs : List Char)

/-! ## Looking at the text -/

def byteAt (n : Nat) : Option UInt8 := (bytes cs)[n]?

/-- A byte that has to be there. -/
def fetch (n : Nat) : Except Fault UInt8 := ((byteAt cs n).map .ok).getD (.error .index)

/-- The text from a position. -/
def sliceFrom (n : Nat) : Except Fault (List Char) := ((dropBytes n cs).map .ok).getD (.error .slice)

/-- The text between two positions. -/
def sliceBetween (start stop : Nat) : Except Fault (List Char) := do
  if stop < start then throw .slice
  ((takeBytes (stop - start) (← sliceFrom cs start)).map .ok).getD (.error .slice)

/-! ## Passing over tokens -/

/-- The end of a string whose opening quote was passed. -/
def skipString (quote : UInt8) (pos : Nat) : Nat :=
  match h : byteAt cs pos with
  | none => pos
  | some b =>
    if b = byte '\\' then skipString quote (pos + 2)
    else if b = byte '\n' then pos
    else if b = quote then pos + 1
    else skipString quote (pos + 1)
termination_by (bytes cs).length - pos
decreasing_by
  all_goals
    have := (List.getElem?_eq_some_iff.1 h).1
    omega

/-- The end of a run of letters. -/
def skipFlags (pos : Nat) : Nat :=
  match h : byteAt cs pos with
  | none => pos
  | some b => if ascii Char.isAlpha b then skipFlags (pos + 1) else pos
termination_by (bytes cs).length - pos
decreasing_by
  have := (List.getElem?_eq_some_iff.1 h).1
  omega

/-- The end of a regular expression whose opening slash was passed. -/
def skipRegex (bracketed : Bool) (pos : Nat) : Nat :=
  match h : byteAt cs pos with
  | none => pos
  | some b =>
    if b = byte '\\' then skipRegex bracketed (pos + 2)
    else if b = byte '\n' then pos
    else if b = byte '[' then skipRegex true (pos + 1)
    else if b = byte ']' then skipRegex false (pos + 1)
    else if b = byte '/' ∧ !bracketed then skipFlags cs (pos + 1)
    else skipRegex bracketed (pos + 1)
termination_by (bytes cs).length - pos
decreasing_by
  all_goals
    have := (List.getElem?_eq_some_iff.1 h).1
    omega

def skipLineComment (pos : Nat) : Except Fault Nat := do
  let rest ← sliceFrom cs pos
  return match splitAtFirst ['\n'] rest with
    | some (before, _) => pos + byteLength before
    | none => (bytes cs).length

def skipBlockComment (pos : Nat) : Except Fault Nat := do
  let rest ← sliceFrom cs (pos + 2)
  return match splitAtFirst "*/".toList rest with
    | some (before, _) => pos + 2 + byteLength before + 2
    | none => (bytes cs).length

/-- Passes over the text of a template literal, up to its end or an expression in it. -/
def literalText (p : Place) : Place :=
  match _h : byteAt cs p.pos with
  | none => p
  | some b =>
    if b = byte '\\' then literalText { p with pos := p.pos + 2 }
    else if b = byte '`' then
      { p with pos := p.pos + 1, frames := p.frames.tail, last := some p.pos }
    else if b = byte '$' ∧ byteAt cs (p.pos + 1) = some (byte '{') then
      { p with pos := p.pos + 2, frames := .interpolation :: p.frames, last := some (p.pos + 1) }
    else literalText { p with pos := p.pos + 1 }
termination_by (bytes cs).length - p.pos
decreasing_by
  all_goals
    have := (List.getElem?_eq_some_iff.1 _h).1
    omega

/-! ## Where a place is -/

/-- The characters of the words that are looked back at. -/
def isWordChar (c : Char) : Bool := c.isAlphanum || c == '_' || c == '$'

/-- Where the word starts that ends before a position. -/
def wordStart : Nat → Except Fault Nat
  | 0 => .ok 0
  | n + 1 => do
    if ascii isWordChar (← fetch cs n) then wordStart n else return n + 1

/-- The word that ends with the byte at a position, or nothing if it cannot be cut out. -/
def wordEndingAt (place : Nat) : Except Fault (List Char) := do
  let start ← wordStart cs (place + 1)
  return ((dropBytes start cs).bind (takeBytes (place + 1 - start))).getD []

/-- Whether a word that a value follows ends with the byte at a position. -/
def afterKeyword (place : Nat) : Except Fault Bool := do
  let word ← wordEndingAt cs place
  return ["default", "return", "yield", "await", "typeof", "void"].any fun w => w.toList == word

/-- Whether the byte at a position is one of these, or ends a word that a value follows. -/
def afterAny (these : String) (place : Nat) : Except Fault Bool := do
  if ascii these.toList.contains (← fetch cs place) then return true else afterKeyword cs place

def regexAllowed (p : Place) : Except Fault Bool :=
  match p.last with
  | none => .ok true
  | some place => afterAny cs "(,=:[!&|?\x7b\x7d;" place

def placement (p : Place) : Except Fault Placement :=
  match p.frames with
  | .classBody :: _ => .ok .classMember
  | _ :: _ => .ok .expression
  | [] =>
    match p.last with
    | none => .ok .topLevel
    | some place => do
      if ← afterAny cs "=(,:?[!&|>" place then return .expression else return .topLevel

/-- The position of the last character that satisfies `p`. -/
def lastIndex (p : Char → Bool) (front : List Char) : Option Nat :=
  match front.reverse.dropWhile fun c => !p c with
  | [] => none
  | _ :: before => some (byteLength before)

/-- The text since the last brace or semicolon. -/
def statementHead (pos : Nat) : Except Fault (List Char) := do
  let front ← sliceBetween cs 0 pos
  let start := match lastIndex (fun c => c == ';' || c == '{' || c == '}') front with
    | some index => index + 1
    | none => 0
  sliceBetween cs start pos

def braceFrame (pos : Nat) : Except Fault Frame := do
  return if isClassHead (← statementHead cs pos) then .classBody else .block

/-! ## Elements -/

def openAt (n : Nat) : Except Fault Bool := do
  let rest ← sliceFrom cs n
  return openTag.isPrefixOf rest &&
    (byteAt cs (n + openTag.length)).any
      (ascii fun c => c == '>' || c == ' ' || c == '\t' || c == '\n' || c == '\r')

/-- Where `word` occurs, without overlap, in a text that starts at `base`; `skip` characters still belong to an
occurrence. -/
def occurrences (word : List Char) (skip base : Nat) : List Char → List Nat
  | [] => []
  | c :: cs =>
    match skip with
    | n + 1 => occurrences word n (base + c.utf8Size) cs
    | 0 =>
      if word.isPrefixOf (c :: cs) then base :: occurrences word (word.length - 1) (base + c.utf8Size) cs
      else occurrences word 0 (base + c.utf8Size) cs

/-- The first of some positions at which an opening tag stands. -/
def firstOpen : List Nat → Except Fault (Option Nat)
  | [] => .ok none
  | n :: ns => do
    if ← openAt cs n then return some n else firstOpen ns

theorem sliceFrom_eq_ok {n : Nat} {rest : List Char} :
    sliceFrom cs n = .ok rest ↔ ∃ before, cs = before ++ rest ∧ n = byteLength before := by
  rw [← dropBytes_eq_some_iff, sliceFrom]
  cases dropBytes n cs <;> simp

theorem lt_of_sliceFrom {cursor : Nat} {rest inside after : List Char} (h : sliceFrom cs cursor = .ok rest)
    (hsplit : splitAtFirst closeTag rest = some (inside, after)) : cursor < (bytes cs).length := by
  obtain ⟨before, rfl, rfl⟩ := (sliceFrom_eq_ok cs).1 h
  have hclose : 0 < byteLength closeTag := by decide
  rw [splitAtFirst_eq_some hsplit]
  simp only [length_bytes, byteLength_append]
  omega

theorem le_of_mem_occurrences {word : List Char} {n : Nat} :
    ∀ {cs : List Char} {skip base : Nat}, n ∈ occurrences word skip base cs → base ≤ n
  | [], _, _, h => by cases h
  | c :: cs, skip + 1, base, h => by
    rw [occurrences] at h
    exact (Nat.le_add_right _ _).trans (le_of_mem_occurrences h)
  | c :: cs, 0, base, h => by
    rw [occurrences] at h
    split at h
    · rcases List.mem_cons.1 h with rfl | h
      · exact le_rfl
      · exact (Nat.le_add_right _ _).trans (le_of_mem_occurrences h)
    · exact (Nat.le_add_right _ _).trans (le_of_mem_occurrences h)

theorem mem_of_firstOpen {ns : List Nat} {n : Nat} (h : firstOpen cs ns = .ok (some n)) : n ∈ ns := by
  induction ns with
  | nil => cases h
  | cons m ns ih =>
    rw [firstOpen] at h
    cases hopen : openAt cs m with
    | error e =>
      rw [hopen] at h
      cases h
    | ok isOpen =>
      rw [hopen] at h
      cases isOpen with
      | true =>
        cases h
        exact List.mem_cons_self
      | false => exact List.mem_cons_of_mem m (ih h)

/-- Where the closing tag of an element starts, looked for from `cursor`; `depth` elements have opened since. -/
def closeStart (unclosed : Fault) (depth cursor : Nat) : Except Fault Nat :=
  match _hrest : sliceFrom cs cursor with
  | .error e => .error e
  | .ok rest =>
    match _hsplit : splitAtFirst closeTag rest with
    | none => .error unclosed
    | some (inside, _) =>
      match sliceBetween cs cursor (cursor + byteLength inside) with
      | .error e => .error e
      | .ok window =>
        match _hopen : firstOpen cs (occurrences openTag 0 cursor window), depth with
        | .error e, _ => .error e
        | .ok (some next), depth => closeStart unclosed (depth + 1) (next + openTag.length)
        | .ok none, 0 => .ok (cursor + byteLength inside)
        | .ok none, depth + 1 => closeStart unclosed depth (cursor + byteLength inside + closeTag.length)
termination_by (bytes cs).length - cursor
decreasing_by
  · have hlt := lt_of_sliceFrom cs _hrest _hsplit
    have hle := le_of_mem_occurrences (mem_of_firstOpen cs _hopen)
    have hpos : 0 < openTag.length := by decide
    omega
  · have hlt := lt_of_sliceFrom cs _hrest _hsplit
    have hpos : 0 < closeTag.length := by decide
    omega

/-- The place after an element whose opening tag ends at `openEnd` and whose closing tag starts at `close`. -/
def Place.past (p : Place) (openEnd close : Nat) (placement : Placement) : Place :=
  let stop := close + closeTag.length
  { p with
    pos := stop
    last := some (stop - 1)
    found := p.found ++ [⟨⟨p.pos, stop⟩, ⟨openEnd, close⟩, placement⟩] }

/-- Passes over the element at a place. -/
def element (p : Place) : Except Fault Place := do
  let rest ← sliceFrom cs p.pos
  let unclosed := Fault.unclosed ⟨⟨p.pos, p.pos + openTag.length⟩⟩
  match splitAtFirst ['>'] rest with
  | none => throw unclosed
  | some (tag, _) =>
    let openEnd := byteLength tag + p.pos + 1
    let close ← closeStart cs unclosed 0 openEnd
    return p.past openEnd close (← placement cs p)

/-! ## Turns -/

/-- Leaves the innermost frame if it is one of these. -/
def popIf (kinds : List Frame) : List Frame → List Frame
  | f :: outer => if kinds.contains f then outer else f :: outer
  | [] => []

/-- The end of a turn at `pos`. It counts, unless its first byte is white space. -/
def Place.turned (p : Place) (b : UInt8) (pos : Nat) (frames : List Frame) : Place :=
  { p with
    pos, frames
    last := if ascii isIdle b then p.last else some (min pos (bytes cs).length - 1) }

/-- A turn in code, at the byte `b`. -/
def codeTurn (p : Place) (b : UInt8) : Except Fault Place := do
  if b = byte '\'' ∨ b = byte '"' then return p.turned cs b (skipString cs b (p.pos + 1)) p.frames
  else if b = byte '`' then return p.turned cs b (p.pos + 1) (.literal :: p.frames)
  else if b = byte '/' ∧ byteAt cs (p.pos + 1) = some (byte '/') then
    return { p with pos := ← skipLineComment cs p.pos }
  else if b = byte '/' ∧ byteAt cs (p.pos + 1) = some (byte '*') then
    return { p with pos := ← skipBlockComment cs p.pos }
  else if b = byte '/' then
    if ← regexAllowed cs p then return p.turned cs b (skipRegex cs false (p.pos + 1)) p.frames
    else return p.turned cs b (p.pos + 1) p.frames
  else if b = byte '<' then
    if ← openAt cs p.pos then element cs p else return p.turned cs b (p.pos + 1) p.frames
  else if b = byte '{' then return p.turned cs b (p.pos + 1) ((← braceFrame cs p.pos) :: p.frames)
  else if b = byte '(' ∨ b = byte '[' then return p.turned cs b (p.pos + 1) (.paren :: p.frames)
  else if b = byte ')' ∨ b = byte ']' then return p.turned cs b (p.pos + 1) (popIf [.paren] p.frames)
  else if b = byte '}' then
    return p.turned cs b (p.pos + 1) (popIf [.classBody, .block, .interpolation] p.frames)
  else return p.turned cs b (p.pos + 1) p.frames

def turn (p : Place) : Except Fault Place :=
  if p.frames.head? = some .literal then .ok (literalText cs p)
  else do codeTurn cs p (← fetch cs p.pos)

/-- Turn after turn, up to the end of the text. -/
def run (p : Place) : Except Fault Place :=
  if p.pos < (bytes cs).length then
    match turn cs p with
    | .error e => .error e
    | .ok next => if p.pos < next.pos then run next else .error .stuck
  else .ok p
termination_by (bytes cs).length - p.pos
decreasing_by omega

end

/-- The elements in a script, found by a walk over its bytes. -/
def scan (source : String) : Except Fault (List NativeTemplate) :=
  (run source.toList {}).map (·.found)

/-! ## Masking -/

/-- Writes bytes over others that have to be there. -/
def overwrite (bs : List UInt8) (start : Nat) (new : List UInt8) : Except Fault (List UInt8) :=
  if start + new.length ≤ bs.length then .ok (bs.take start ++ new ++ bs.drop (start + new.length))
  else .error .index

/-- Blanks the bytes of an element but its line feeds, and writes the placeholder over them. -/
def maskElement (bs : List UInt8) (t : NativeTemplate) : Except Fault (List UInt8) := do
  if t.range.stop < t.range.start ∨ bs.length < t.range.stop then throw .index
  let blank := (bs.drop t.range.start).take (t.range.stop - t.range.start) |>.map fun b =>
    if b = byte '\n' then b else byte ' '
  let blanked ← overwrite bs t.range.start blank
  let marked ← overwrite blanked t.range.start ((placeholder t.placement).map byte)
  if t.placement = .classMember then overwrite marked (t.range.stop - 1) [byte '}'] else return marked

/-- The bytes of a script with elements masked in them. -/
def maskBytes (ts : List NativeTemplate) (source : String) : Except Fault (List UInt8) :=
  ts.foldlM maskElement (bytes source.toList)

end TypedTemplate.Script.Native.Walk
