/-
Patterns for paths. A pattern stands for whole paths, which are matched byte by byte: a question mark
and a class stand for one byte, a star for any bytes, separators included. Two stars between
separators stand for any number of directories.
-/

namespace TypedTemplate.Glob

/-- A part of a pattern. -/
inductive Item where
  | literal (c : Char)
  /-- `?`: one byte. -/
  | any
  /-- `*`: any bytes. -/
  | many
  /-- Two stars at the start: nothing, or any directories. -/
  | leading
  /-- Two stars at the end: all that is below. -/
  | trailing
  /-- Two stars in the middle: one separator, or any directories between two. -/
  | between
  /-- `[a-z]`: one byte of the class, or one that is not in it. -/
  | oneOf (negated : Bool) (ranges : List (Char × Char))
  /-- `{a,b}` -/
  | either (branches : List (List Item))

end Glob

/-- A pattern. -/
structure Glob where
  items : List Glob.Item

namespace Glob

/-! ## Reading patterns -/

/-- What ends a branch of a pattern. -/
inductive Stop where
  | finish
  | comma
  | close
  deriving DecidableEq

/-- The characters of a class after its first one, up to the bracket that closes it. `ranges` holds
those read, the last one first; a hyphen makes the next character the end of the last range, and one
that stands last is itself. -/
def readClass (ranges : List (Char × Char)) (pending : Bool) :
    List Char → Option (List (Char × Char) × List Char)
  | [] => none
  | c :: cs =>
    if c = ']' then some (if pending then ('-', '-') :: ranges else ranges, cs)
    else
      match ranges, pending with
      | (low, _) :: rest, true => if low ≤ c then readClass ((low, c) :: rest) false cs else none
      | ranges, _ =>
        if c = '-' then readClass ranges true cs else readClass ((c, c) :: ranges) false cs

/-- A class after its bracket. The first character always belongs to it. -/
def readOneOf (cs : List Char) : Option (Item × List Char) :=
  let (negated, cs) :=
    match cs with
    | '!' :: rest => (true, rest)
    | '^' :: rest => (true, rest)
    | cs => (false, cs)
  match cs with
  | [] => none
  | c :: rest => do
    let (ranges, rest) ← readClass [(c, c)] false rest
    some (.oneOf negated ranges.reverse, rest)

/-- What two stars do to the items before them, the last one first, and what follows them: `prev` is
the character before them, and `inside` tells whether braces are open. -/
def readStars (inside : Bool) (prev : Option Char) (done : List Item) (cs : List Char) :
    List Item × List Char :=
  let plain := (.many :: .many :: done, cs)
  match done with
  | [] =>
    match cs with
    | [] => ([.leading], [])
    | '/' :: rest => ([.leading], rest)
    | _ => plain
  | last :: before =>
    if prev ≠ some '/' ∧ (inside = false ∨ (prev ≠ some ',' ∧ prev ≠ some '{')) then plain
    else
      let merged (item : Item) : List Item :=
        match last with
        | .leading => .leading :: before
        | .trailing => .trailing :: before
        | _ => item :: before
      match cs with
      | [] => (merged .trailing, [])
      | '/' :: rest => (merged .between, rest)
      | c :: _ => if inside ∧ (c = ',' ∨ c = '}') then (merged .trailing, cs) else plain

mutual

/-- A branch of a pattern, with what ends it. `n` bounds the characters left, `done` holds the items
read, the last one first. -/
def readBranch : Nat → Bool → Option Char → List Item → List Char →
    Option (List Item × Stop × List Char)
  | 0, _, _, _, _ => none
  | n + 1, inside, prev, done, cs =>
    match cs with
    | [] => some (done.reverse, .finish, [])
    | '?' :: rest => readBranch n inside (some '?') (.any :: done) rest
    | '*' :: '*' :: rest =>
      let (items, left) := readStars inside prev done rest
      readBranch n inside (some (if left.length < rest.length then '/' else '*')) items left
    | '*' :: rest => readBranch n inside (some '*') (.many :: done) rest
    | '[' :: rest => do
      let (item, rest) ← readOneOf rest
      readBranch n inside (some ']') (item :: done) rest
    | '{' :: rest => do
      let (branches, rest) ← readBranches n '{' rest
      readBranch n inside (some '}') (.either branches :: done) rest
    | '}' :: rest => if inside then some (done.reverse, .close, rest) else none
    | ',' :: rest =>
      if inside then some (done.reverse, .comma, rest)
      else readBranch n inside (some ',') (.literal ',' :: done) rest
    | '\\' :: c :: rest => readBranch n inside (some c) (.literal c :: done) rest
    | ['\\'] => none
    | c :: rest => readBranch n inside (some c) (.literal c :: done) rest

/-- The branches up to the brace that closes them. -/
def readBranches : Nat → Char → List Char → Option (List (List Item) × List Char)
  | 0, _, _ => none
  | n + 1, prev, cs => do
    let (branch, stop, rest) ← readBranch n true (some prev) [] cs
    match stop with
    | .close => some ([branch], rest)
    | .comma => do
      let (branches, rest) ← readBranches n ',' rest
      some (branch :: branches, rest)
    | .finish => none

end

/-- Reads a pattern. Brackets and braces must close, ranges must go upwards, and no backslash may
stand last. -/
def parse? (pattern : String) : Option Glob := do
  let cs := pattern.toList
  let (items, _, _) ← readBranch (2 * cs.length + 2) false none [] cs
  some ⟨items⟩

/-! ## Matching -/

def bytesOf (c : Char) : List UInt8 := String.utf8EncodeChar c

/-- The bytes that a range of a class stands for: those of its two characters, the bytes from the last
one of the first character to the first one of the last character included. -/
def inRange (b : UInt8) (range : Char × Char) : Bool :=
  let low := bytesOf range.1
  if range.1 = range.2 then low.contains b
  else
    let high := bytesOf range.2
    low.contains b || high.contains b || (low.getLastD 0 ≤ b && b ≤ high.headD 0)

/-- The ends of a list, from the whole to nothing. -/
def ends {α : Type} : List α → List (List α)
  | [] => [[]]
  | a :: as => (a :: as) :: ends as

/-- What follows each separator. -/
def afterSeparators : List UInt8 → List (List UInt8)
  | [] => []
  | b :: bs => if b = '/'.toUInt8 then bs :: afterSeparators bs else afterSeparators bs

/-- What follows some bytes, if they come first. -/
def afterBytes? : List UInt8 → List UInt8 → Option (List UInt8)
  | [], bs => some bs
  | _ :: _, [] => none
  | a :: as, b :: bs => if a = b then afterBytes? as bs else none

mutual

/-- Whether an item can only stand for nothing and is left out: braces without a branch to choose. -/
def Item.isVoid : Item → Bool
  | .either branches => allVoid branches
  | _ => false

def itemsVoid : List Item → Bool
  | [] => true
  | i :: is => i.isVoid && itemsVoid is

def allVoid : List (List Item) → Bool
  | [] => true
  | b :: bs => itemsVoid b && allVoid bs

end

mutual

/-- Whether an item stands for the first of some bytes such that the rest satisfies `k`. -/
def Item.matches (k : List UInt8 → Bool) (bytes : List UInt8) : Item → Bool
  | .literal c => ((afterBytes? (bytesOf c) bytes).map k).getD false
  | .any =>
    match bytes with
    | [] => false
    | _ :: rest => k rest
  | .many => (ends bytes).any k
  | .leading => k bytes || (afterSeparators bytes).any k
  | .trailing =>
    match bytes with
    | [] => false
    | b :: rest => b == '/'.toUInt8 && (ends rest).any k
  | .between =>
    match bytes with
    | [] => false
    | b :: rest => b == '/'.toUInt8 && (k rest || (afterSeparators rest).any k)
  | .oneOf negated ranges =>
    match bytes with
    | [] => false
    | b :: rest => (ranges.any (inRange b) != negated) && k rest
  | .either branches => if allVoid branches then k bytes else anyMatches k bytes branches

/-- Whether items stand one after the other for the first of some bytes such that the rest satisfies
`k`. -/
def itemsMatch (k : List UInt8 → Bool) (bytes : List UInt8) : List Item → Bool
  | [] => k bytes
  | i :: is => i.matches (fun rest => itemsMatch k rest is) bytes

/-- Whether one of some branches does. A branch that is left out is none of them. -/
def anyMatches (k : List UInt8 → Bool) (bytes : List UInt8) : List (List Item) → Bool
  | [] => false
  | b :: bs => (!itemsVoid b && itemsMatch k bytes b) || anyMatches k bytes bs

end

/-- Whether a pattern stands for a path. Two stars alone stand for every path. -/
def isMatch (g : Glob) (path : String) : Bool :=
  match g.items with
  | [.leading] => true
  | items => itemsMatch List.isEmpty (path.toList.flatMap bytesOf) items

end Glob

end TypedTemplate
