/-
What a tree says of its text. A name is spelled as it is written at its span, and so are texts, paths, tags and
comments with what delimits them. A tree accounts for its text if its statements stand there one after another
without a gap: those of the template from its start to its end, those of a block's arm from the braces before it
to the braces after it, those of an element from the end of its opening tag to its closing one, and the parts of a
quoted value from one quote to the other.
-/
import TypedTemplate.Proofs.Template.Placement
import TypedTemplate.Proofs.Text.Place

namespace TypedTemplate.Template

open TypedTemplate.Span (Tile)

variable (source : String)

/-! ## Names and expressions -/

def Name.Spelled (n : Name) : Prop := n.span.slice source = some n.text

def TextRun.Spelled (t : TextRun) : Prop := t.span.slice source = some t.chars

def PathHead.Spelled : PathHead → Prop
  | .this span => span.slice source = some "this"
  | .arg name => name.Spelled source
  | .var name => name.Spelled source

/-- A path is spelled as a whole and in its segments. -/
structure Path.Spelled (p : Path) : Prop where
  whole : p.span.slice source = some p.written
  head : p.head.Spelled source
  tail : ∀ n ∈ p.tail, n.Spelled source

mutual

def Expr.Spelled : Expr → Prop
  | .path p => p.Spelled source
  | .literal _ span => span.Cuts source
  | .call ⟨callee, params, ⟨pairs, hash⟩, span⟩ =>
    span.Cuts source ∧ hash.Cuts source ∧ callee.Spelled ∧ allSpelled params ∧ pairsSpelled pairs

def allSpelled : List Expr → Prop
  | [] => True
  | e :: es => e.Spelled ∧ allSpelled es

def pairsSpelled : List Pair → Prop
  | [] => True
  | ⟨key, value, span⟩ :: ps =>
    key.Spelled source ∧ value.Spelled ∧ span.Cuts source ∧ pairsSpelled ps

end

/-- The parts of a call are spelled, wherever the call itself stands. -/
structure Call.Spelled (c : Call) : Prop where
  span : c.span.Cuts source
  hash : c.hash.span.Cuts source
  callee : c.callee.Spelled source
  params : allSpelled source c.params
  pairs : pairsSpelled source c.hash.pairs

theorem Expr.spelled_call (c : Call) : (Expr.call c).Spelled source ↔ c.Spelled source := by
  obtain ⟨callee, params, ⟨pairs, hash⟩, span⟩ := c
  constructor
  · rintro ⟨h₁, h₂, h₃, h₄, h₅⟩
    exact ⟨h₁, h₂, h₃, h₄, h₅⟩
  · rintro ⟨h₁, h₂, h₃, h₄, h₅⟩
    exact ⟨h₁, h₂, h₃, h₄, h₅⟩

theorem allSpelled_iff {es : List Expr} : allSpelled source es ↔ ∀ e ∈ es, e.Spelled source := by
  induction es with
  | nil => simp [allSpelled]
  | cons e es ih => simp [allSpelled, ih]

theorem pairsSpelled_iff {ps : List Pair} : pairsSpelled source ps ↔
    ∀ p ∈ ps, p.key.Spelled source ∧ p.value.Spelled source ∧ p.span.Cuts source := by
  induction ps with
  | nil => simp [pairsSpelled]
  | cons p ps ih =>
    obtain ⟨key, value, span⟩ := p
    simp [pairsSpelled, ih, and_assoc]

theorem Expr.Spelled.cuts {e : Expr} (h : e.Spelled source) : e.span.Cuts source := by
  cases e with
  | path p => exact ⟨_, h.whole⟩
  | literal value span => exact h
  | call c => exact ((Expr.spelled_call source c).1 h).span

/-! ## Opening tags -/

/-- The characters that quote a value. -/
def quotes : List Char := ['"', '\'']

/-- A span with the same quote at its two ends. -/
def IsQuoted (s : Span) : Prop :=
  ∃ quote ∈ quotes, s.start + 2 ≤ s.stop ∧
    Text.slice source s.start (s.start + 1) = some (String.ofList [quote]) ∧
    Text.slice source (s.stop - 1) s.stop = some (String.ofList [quote])

def ConcatPart.Spelled : ConcatPart → Prop
  | .text t => t.Spelled source
  | .mustache m => m.call.Spelled source

/-- The text of a value is written at its span, and does not start with a quote, or it is written between the
quotes at the ends of its span. The parts of a value with mustaches stand between its quotes. -/
def AttrValue.Spelled : AttrValue → Prop
  | .text t => t.Spelled source ∧ (∀ quote ∈ quotes, t.chars.toList.head? ≠ some quote) ∨
      IsQuoted source t.span ∧ Text.slice source (t.span.start + 1) (t.span.stop - 1) = some t.chars
  | .mustache m => m.call.Spelled source
  | .concat parts span => IsQuoted source span ∧
      Tile (span.start + 1) (parts.map (·.span)) (span.stop - 1) ∧ ∀ p ∈ parts, p.Spelled source

structure Attribute.Spelled (a : Attribute) : Prop where
  name : a.name.Spelled source
  value : a.value.Spelled source
  span : a.span.Cuts source

/-- What a comment in braces can start with, and what it can end with. -/
def commentOpenings : List String := ["\x7b\x7b!", "\x7b\x7b~!", "\x7b\x7b!--", "\x7b\x7b~!--"]

def commentClosings : List String := ["\x7d\x7d", "~\x7d\x7d", "--\x7d\x7d", "--~\x7d\x7d"]

/-- A comment is spelled with its delimiters. -/
def Comment.Spelled (openings closings : List String) (c : Comment) : Prop :=
  ∃ opening ∈ openings, ∃ closing ∈ closings,
    c.span.slice source = some (opening ++ c.value ++ closing)

theorem Comment.Spelled.cuts {openings closings : List String} {c : Comment}
    (h : c.Spelled source openings closings) : c.span.Cuts source := by
  obtain ⟨opening, -, closing, -, h⟩ := h
  exact ⟨_, h⟩

/-- The spans of what stands in an opening tag, by kinds. -/
def Element.inside (e : Element) : List Span :=
  e.attributes.map (·.span) ++ e.modifiers.map (·.span) ++ e.comments.map (·.span)

/-- Where an opening tag ends: after the first bracket that closes, brackets in attributes, modifiers and
comments not counted. -/
structure Element.OpensTo (e : Element) (stop : Nat) : Prop where
  after_tag : e.tag.span.stop < stop
  bracket : Text.slice source (stop - 1) stop = some ">"
  first : ∀ p, e.tag.span.stop ≤ p → p + 1 < stop → Text.slice source p (p + 1) = some ">" →
    ∃ s ∈ e.inside, s.contains p = true

/-- What is asked of an element apart from what its children hold. -/
structure Element.Framed (e : Element) : Prop where
  span : e.span.Cuts source
  bracket : Text.slice source e.span.start (e.span.start + 1) = some "<"
  start : e.tag.span.start = e.span.start + 1
  tag : e.tag.Spelled source
  attributes : ∀ a ∈ e.attributes, a.Spelled source
  modifiers : ∀ m ∈ e.modifiers, m.Spelled source
  comments : ∀ c ∈ e.comments, c.Spelled source commentOpenings commentClosings
  params : ∀ n ∈ e.params, n.Spelled source
  bare : e.closeTagSpan = none → e.children = []
  closed : ∀ close ∈ e.closeTagSpan, close.slice source = some e.tag.text ∧
    ∃ opened closing, e.OpensTo source opened ∧ Tile opened (e.children.map (·.span)) closing ∧
      Text.slice source closing close.start = some "</"

/-- What an opening tag holds is spelled, of whichever kind it is. -/
def TagPart.Spelled : TagPart → Prop
  | .attr a => a.Spelled source
  | .modifier m => m.Spelled source
  | .comment c => c.Spelled source commentOpenings commentClosings

theorem TagPart.Spelled.cuts {part : TagPart} (h : part.Spelled source) : part.span.Cuts source := by
  cases part with
  | attr a => exact Attribute.Spelled.span h
  | modifier m => exact Call.Spelled.span h
  | comment c => exact Comment.Spelled.cuts source h

theorem Element.Framed.spelled_parts {e : Element} (h : e.Framed source) :
    ∀ part ∈ e.parts, part.Spelled source := by
  intro part hpart
  rw [Element.parts, List.mem_mergeSort] at hpart
  simp only [List.mem_append, List.mem_map] at hpart
  rcases hpart with (⟨a, ha, rfl⟩ | ⟨m, hm, rfl⟩) | ⟨c, hc, rfl⟩
  · exact h.attributes a ha
  · exact h.modifiers m hm
  · exact h.comments c hc

/-! ## Blocks -/

/-- An arm of a block fills the text between its braces. -/
structure Arm.Between (a : Arm) : Prop where
  opened : Text.slice source (a.span.start - 2) a.span.start = some "\x7d\x7d"
  closing : Text.slice source a.span.stop (a.span.stop + 2) = some "\x7b\x7b"

/-- What is asked of a block apart from what its arms hold. Instead of text between braces, an `else` that opens
a block of its own has that block. -/
structure Block.Framed (b : Block) : Prop where
  span : b.span.Cuts source
  call : b.call.Spelled source
  params : ∀ a ∈ b.program :: b.inverse.toList, ∀ n ∈ a.params, n.Spelled source
  tiled : ∀ a ∈ b.program :: b.inverse.toList, Tile a.span.start (a.body.map (·.span)) a.span.stop
  between : ∀ a ∈ b.program :: b.inverse.toList, a.chained = false → a.Between source
  chained : ∀ a ∈ b.program :: b.inverse.toList, a.chained = true →
    ∃ nested, a.body = [.block nested] ∧ nested.span = a.span
  close : ∀ s ∈ b.closeSpan, ∃ path, b.call.callee = .path path ∧ s.slice source = some path.written

/-! ## Statements -/

mutual

def Statement.Accounted : Statement → Prop
  | .text t => t.Spelled source
  | .comment c => c.Spelled source ["<!--"] ["-->"]
  | .mustacheComment c => c.Spelled source commentOpenings commentClosings
  | .mustache m => m.call.Spelled source
  | .block ⟨call, ⟨body, params, chained, arm⟩, inverse, close, span⟩ =>
    Block.Framed source ⟨call, ⟨body, params, chained, arm⟩, inverse, close, span⟩ ∧
      statementsAccounted body ∧ inverseAccounted inverse
  | .element ⟨tag, attributes, modifiers, comments, params, children, selfClosing, close, span⟩ =>
    Element.Framed source
        ⟨tag, attributes, modifiers, comments, params, children, selfClosing, close, span⟩ ∧
      statementsAccounted children

def statementsAccounted : List Statement → Prop
  | [] => True
  | s :: ss => s.Accounted ∧ statementsAccounted ss

def inverseAccounted : Option Arm → Prop
  | none => True
  | some ⟨body, _, _, _⟩ => statementsAccounted body

end

theorem Statement.accounted_block (b : Block) : (Statement.block b).Accounted source ↔
    b.Framed source ∧ statementsAccounted source b.program.body ∧
      ∀ a ∈ b.inverse, statementsAccounted source a.body := by
  obtain ⟨_, ⟨_, _, _, _⟩, inverse, _, _⟩ := b
  cases inverse with
  | none => simp [Statement.Accounted, inverseAccounted]
  | some a =>
    cases a
    simp [Statement.Accounted, inverseAccounted]

theorem Statement.accounted_element (e : Element) : (Statement.element e).Accounted source ↔
    e.Framed source ∧ statementsAccounted source e.children := by
  cases e
  rfl

theorem statementsAccounted_iff {ss : List Statement} :
    statementsAccounted source ss ↔ ∀ s ∈ ss, s.Accounted source := by
  induction ss with
  | nil => simp [statementsAccounted]
  | cons s ss ih => simp [statementsAccounted, ih]

theorem Statement.Accounted.cuts {s : Statement} (h : s.Accounted source) : s.span.Cuts source := by
  cases s with
  | text t => exact ⟨_, h⟩
  | comment c => exact Comment.Spelled.cuts source h
  | mustacheComment c => exact Comment.Spelled.cuts source h
  | mustache m => exact Call.Spelled.span h
  | block b => exact ((accounted_block source b).1 h).1.span
  | element e => exact ((accounted_element source e).1 h).1.span

/-- The statements of a template account for all of its text. -/
structure Accounted (t : Template) : Prop where
  whole : t.span = .ofText source
  tiled : Tile 0 (t.body.map (·.span)) (Text.size source)
  statements : statementsAccounted source t.body

end TypedTemplate.Template
