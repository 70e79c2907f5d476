/-
Drafts by their marks. `Placed` says that marks lie in given cells, that two of them are the same or
apart, and that what each of them holds lies in it under the same conditions. It depends on nothing
but which marks there are, so code may be written in any order and twice.
-/
import TypedTemplate.Draft
import TypedTemplate.Proofs.Span

namespace TypedTemplate.Draft

open Mapping (Label)
open TypedTemplate.Span (Apart)

/-! ## Marks -/

/-- A mark of a draft. -/
structure Mark where
  label : Label
  span : Span
  keepEmpty : Bool
  inside : List Piece

mutual

/-- The outermost marks of a piece. -/
def marksOf : Piece → List Mark
  | .mark label span keepEmpty inside => [⟨label, span, keepEmpty, inside⟩]
  | .block _ inside => marks inside
  | _ => []

/-- The outermost marks of a draft. -/
def marks : List Piece → List Mark
  | [] => []
  | p :: ps => marksOf p ++ marks ps

end

mutual

/-- The marks of a piece with those inside them. -/
def allMarksOf : Piece → List Mark
  | .mark label span keepEmpty inside => ⟨label, span, keepEmpty, inside⟩ :: allMarks inside
  | .block _ inside => allMarks inside
  | _ => []

/-- The marks of a draft with those inside them. -/
def allMarks : List Piece → List Mark
  | [] => []
  | p :: ps => allMarksOf p ++ allMarks ps

end

@[simp] theorem marks_nil : marks [] = [] := rfl

@[simp] theorem marks_cons (p : Piece) (ps : Draft) : marks (p :: ps) = marksOf p ++ marks ps := rfl

@[simp] theorem marks_append (a b : Draft) : marks (a ++ b) = marks a ++ marks b := by
  induction a with
  | nil => rfl
  | cons p ps ih => simp [ih]

@[simp] theorem marks_flatMap {α : Type} (xs : List α) (f : α → Draft) :
    marks (xs.flatMap f) = xs.flatMap fun x => marks (f x) := by
  induction xs with
  | nil => rfl
  | cons x xs ih => simp [ih]

@[simp] theorem marksOf_text (s : String) : marksOf (.text s) = [] := rfl

@[simp] theorem marksOf_issue (cause : IssueCause) (span : Span) :
    marksOf (.issue cause span) = [] := rfl

@[simp] theorem marksOf_directive (kind : DirectiveKind) (location : Span) (area : Option Span) :
    marksOf (.directive kind location area) = [] := rfl

@[simp] theorem marksOf_mark (label : Label) (span : Span) (keepEmpty : Bool) (inside : Draft) :
    marksOf (.mark label span keepEmpty inside) = [⟨label, span, keepEmpty, inside⟩] := rfl

@[simp] theorem marks_node (kind : String) (span : Span) (inside : Draft) :
    marks (node kind span inside) = [⟨.node kind, span, false, inside⟩] := rfl

@[simp] theorem marks_within (params : List Template.Name) (inside : Draft) :
    marks (within params inside) = marks inside := by
  simp [within, marksOf]

@[simp] theorem marks_separated (separator : String) : ∀ ds : List Draft,
    marks (separated separator ds) = ds.flatMap marks
  | [] => rfl
  | [d] => by simp [separated]
  | d :: e :: ds => by simp [separated, marks_separated separator (e :: ds)]

mutual

theorem mem_allMarksOf {m : Mark} : ∀ {p : Piece},
    m ∈ allMarksOf p ↔ ∃ n ∈ marksOf p, m = n ∨ m ∈ allMarks n.inside
  | .text _ => by simp [allMarksOf]
  | .mark _ _ _ inside => by simp [allMarksOf]
  | .block _ inside => by
    rw [allMarksOf, marksOf]
    exact mem_allMarks
  | .issue _ _ => by simp [allMarksOf]
  | .directive _ _ _ => by simp [allMarksOf]

theorem mem_allMarks {m : Mark} : ∀ {d : List Piece},
    m ∈ allMarks d ↔ ∃ n ∈ marks d, m = n ∨ m ∈ allMarks n.inside
  | [] => by simp [allMarks]
  | p :: ps => by
    simp only [allMarks, marks_cons, List.mem_append, mem_allMarksOf (p := p),
      mem_allMarks (d := ps)]
    grind

end

/-! ## Placed marks -/

/-- Marks of which two are the same or stand for spans that do not overlap. -/
def Clear (ms : List Mark) : Prop := ∀ a ∈ ms, ∀ b ∈ ms, a = b ∨ Apart a.span b.span

/-- A mark around what it holds. -/
structure Mark.Fits (m : Mark) : Prop where
  inside : ∀ n ∈ marks m.inside, n.span.In m.span.start m.span.stop
  clear : Clear (marks m.inside)
  leaf : m.label.isName = true → marks m.inside = []

/-- Marks that lie in some cells, are clear of each other and fit what they hold. -/
structure Placed (cells : List Span) (ms : List Mark) : Prop where
  within : ∀ m ∈ ms, ∃ s ∈ cells, m.span.In s.start s.stop
  clear : Clear ms
  fits : ∀ m ∈ ms, m.Fits ∧ ∀ n ∈ allMarks m.inside, n.Fits

theorem Placed.nil (cells : List Span) : Placed cells [] := ⟨by simp, by simp [Clear], by simp⟩

theorem Placed.subset {cells : List Span} {ms ns : List Mark} (h : Placed cells ms)
    (hs : ∀ n ∈ ns, n ∈ ms) : Placed cells ns :=
  ⟨fun n hn => h.within n (hs n hn), fun a ha b hb => h.clear a (hs a ha) b (hs b hb),
    fun n hn => h.fits n (hs n hn)⟩

theorem Placed.mono {cells cells' : List Span} {ms : List Mark} (h : Placed cells ms)
    (hc : ∀ s ∈ cells, ∃ s' ∈ cells', s.In s'.start s'.stop) : Placed cells' ms := by
  refine ⟨fun m hm => ?_, h.clear, h.fits⟩
  obtain ⟨s, hs, hin⟩ := h.within m hm
  obtain ⟨s', hs', hin'⟩ := hc s hs
  exact ⟨s', hs', hin.mono hin'.lower hin'.upper⟩

/-- Marks in cells apart are clear of each other. -/
theorem Placed.append {as bs : List Span} {ms ns : List Mark} (ha : Placed as ms)
    (hb : Placed bs ns) (hab : (as ++ bs).Pairwise Apart) : Placed (as ++ bs) (ms ++ ns) := by
  have hcross : ∀ m ∈ ms, ∀ n ∈ ns, Apart m.span n.span := by
    intro m hm n hn
    obtain ⟨s, hs, hms⟩ := ha.within m hm
    obtain ⟨t, ht, hnt⟩ := hb.within n hn
    rcases (List.pairwise_append.1 hab).2.2 s hs t ht with h | h
    · exact .inl (hms.upper.trans (h.trans hnt.lower))
    · exact .inr (hnt.upper.trans (h.trans hms.lower))
  refine ⟨fun m hm => ?_, fun m hm n hn => ?_, fun m hm => ?_⟩
  · rcases List.mem_append.1 hm with hm | hm
    · obtain ⟨s, hs, hin⟩ := ha.within m hm
      exact ⟨s, List.mem_append_left _ hs, hin⟩
    · obtain ⟨s, hs, hin⟩ := hb.within m hm
      exact ⟨s, List.mem_append_right _ hs, hin⟩
  · rcases List.mem_append.1 hm with hm | hm <;> rcases List.mem_append.1 hn with hn | hn
    · exact ha.clear m hm n hn
    · exact .inr (hcross m hm n hn)
    · exact .inr (hcross n hn m hm).symm
    · exact hb.clear m hm n hn
  · rcases List.mem_append.1 hm with hm | hm
    · exact ha.fits m hm
    · exact hb.fits m hm

theorem Placed.flatMap {α : Type} {span : α → Span} {f : α → List Mark} :
    ∀ {xs : List α}, (xs.map span).Pairwise Apart → (∀ x ∈ xs, Placed [span x] (f x)) →
      Placed (xs.map span) (xs.flatMap f)
  | [], _, _ => .nil _
  | x :: _, hp, h =>
    Placed.append (h x List.mem_cons_self)
      (Placed.flatMap (List.pairwise_cons.1 hp).2 fun y hy => h y (List.mem_cons_of_mem _ hy)) hp

/-- A mark around placed marks. -/
theorem Placed.mark {cells : List Span} {inside : Draft} {label : Label} {span : Span}
    (h : Placed cells (marks inside)) (hs : ∀ s ∈ cells, s.In span.start span.stop)
    (hspan : span.start ≤ span.stop) (hleaf : label.isName = true → marks inside = [])
    (keepEmpty : Bool) : Placed [span] [⟨label, span, keepEmpty, inside⟩] := by
  have hin : ∀ n ∈ marks inside, n.span.In span.start span.stop := by
    intro n hn
    obtain ⟨s, hs', hns⟩ := h.within n hn
    exact hns.mono (hs s hs').lower (hs s hs').upper
  have hall : ∀ n ∈ allMarks inside, n.Fits := by
    intro n hn
    obtain ⟨m, hm, rfl | hmem⟩ := mem_allMarks.1 hn
    · exact (h.fits _ hm).1
    · exact (h.fits m hm).2 n hmem
  refine ⟨?_, ?_, ?_⟩
  · simpa using (⟨le_rfl, hspan, le_rfl⟩ : span.In span.start span.stop)
  · simp [Clear]
  · simpa using ⟨⟨hin, h.clear, hleaf⟩, hall⟩

theorem Placed.node {cells : List Span} {inside : Draft} {span : Span}
    (h : Placed cells (marks inside)) (hs : ∀ s ∈ cells, s.In span.start span.stop)
    (hspan : span.start ≤ span.stop) (kind : String) :
    Placed [span] (marks (node kind span inside)) :=
  h.mark hs hspan (by simp [Label.isName]) false

/-- At most one mark, of a construct at `span`, around marks that are placed in some cells. -/
def Encloses (span : Span) (cells : List Span) (ms : List Mark) : Prop :=
  ms = [] ∨ ∃ label keepEmpty inside, ms = [⟨label, span, keepEmpty, inside⟩] ∧
    label.isName = false ∧ Placed cells (marks inside)

theorem Placed.encloses {cells : List Span} {inside : Draft} (h : Placed cells (marks inside))
    (kind : String) (span : Span) : Encloses span cells (marks (Draft.node kind span inside)) :=
  .inr ⟨.node kind, false, inside, rfl, rfl, h⟩

theorem Encloses.placed {span : Span} {cells : List Span} {ms : List Mark} (h : Encloses span cells ms)
    (hs : ∀ s ∈ cells, s.In span.start span.stop) (hspan : span.start ≤ span.stop) :
    Placed [span] ms := by
  rcases h with rfl | ⟨label, keepEmpty, inside, rfl, hlabel, hp⟩
  · exact .nil _
  · exact hp.mark hs hspan (by simp [hlabel]) keepEmpty

theorem placed_name (code label : String) {span : Span} (hspan : span.start ≤ span.stop) :
    Placed [span] (marks (name code label span)) :=
  Placed.mark (.nil []) (by simp) hspan (by simp) true

end TypedTemplate.Draft
