/-
Code between marks. A draft is spaced if code stands between the end of a mark and the next name,
however deep in later marks that name is. What a name stands for is found by the end of the code
before it, so a mark that ended where the name starts would be found in its place.
-/
import TypedTemplate.Proofs.Draft.Placed

namespace TypedTemplate.Draft

open Mapping (Label)

variable (gap : Bool)

mutual

/-- Whether code was written since the last mark ended, after a piece; `gap` says so before it. -/
def gapOf (gap : Bool) : Piece → Bool
  | .text s => gap || s != ""
  | .mark _ _ _ _ => false
  | .block _ inside => gapAfter gap inside
  | .issue _ _ => gap
  | .directive _ _ _ => gap

/-- Whether code was written since the last mark ended, after a draft. -/
def gapAfter (gap : Bool) : List Piece → Bool
  | [] => gap
  | p :: ps => gapAfter (gapOf gap p) ps

end

mutual

def SpacedOf (gap : Bool) : Piece → Prop
  | .mark label _ _ inside =>
    (label.isName = true → gap = true ∨ size inside = 0) ∧ Spaced gap inside
  | .block _ inside => Spaced gap inside
  | _ => True

/-- A name with code comes only where code was written since the last mark ended; `gap` says whether
that is so at the start. -/
def Spaced (gap : Bool) : List Piece → Prop
  | [] => True
  | p :: ps => SpacedOf gap p ∧ Spaced (gapOf gap p) ps

end

@[simp] theorem gapAfter_nil : gapAfter gap [] = gap := rfl

@[simp] theorem gapAfter_cons (p : Piece) (ps : Draft) : gapAfter gap (p :: ps) = gapAfter (gapOf gap p) ps := rfl

@[simp] theorem gapAfter_append (a b : Draft) : gapAfter gap (a ++ b) = gapAfter (gapAfter gap a) b := by
  induction a generalizing gap with
  | nil => rfl
  | cons p ps ih => simp [ih]

@[simp] theorem gapOf_text (s : String) : gapOf gap (.text s) = (gap || s != "") := rfl

@[simp] theorem gapOf_issue (cause : IssueCause) (span : Span) : gapOf gap (.issue cause span) = gap := rfl

@[simp] theorem gapOf_directive (kind : DirectiveKind) (location : Span) (area : Option Span) :
    gapOf gap (.directive kind location area) = gap := rfl

@[simp] theorem spaced_nil : Spaced gap [] := trivial

theorem spaced_cons {gap : Bool} {p : Piece} {ps : Draft} :
    Spaced gap (p :: ps) ↔ SpacedOf gap p ∧ Spaced (gapOf gap p) ps := Iff.rfl

theorem spacedOf_mark {gap : Bool} {label : Label} {span : Span} {keepEmpty : Bool}
    {inside : Draft} : SpacedOf gap (.mark label span keepEmpty inside) ↔
      (label.isName = true → gap = true ∨ size inside = 0) ∧ Spaced gap inside := Iff.rfl

theorem spacedOf_block {gap : Bool} {names : List String} {inside : Draft} :
    SpacedOf gap (.block names inside) ↔ Spaced gap inside := Iff.rfl

@[simp] theorem spaced_append {gap : Bool} {a b : Draft} :
    Spaced gap (a ++ b) ↔ Spaced gap a ∧ Spaced (gapAfter gap a) b := by
  induction a generalizing gap with
  | nil => simp
  | cons p ps ih => simp [spaced_cons, ih, and_assoc]

@[simp] theorem spaced_text_cons {gap : Bool} {s : String} {d : Draft} :
    Spaced gap (.text s :: d) ↔ Spaced (gap || s != "") d := and_iff_right trivial

@[simp] theorem spaced_issue_cons {gap : Bool} {cause : IssueCause} {span : Span} {d : Draft} :
    Spaced gap (.issue cause span :: d) ↔ Spaced gap d := and_iff_right trivial

@[simp] theorem spaced_directive_cons {gap : Bool} {kind : DirectiveKind} {location : Span}
    {area : Option Span} {d : Draft} :
    Spaced gap (.directive kind location area :: d) ↔ Spaced gap d := and_iff_right trivial

@[simp] theorem spaced_within {gap : Bool} {params : List Template.Name} {inside : Draft} :
    Spaced gap (within params inside) ↔ Spaced gap inside := by
  simp [within, spaced_cons, spacedOf_block]

@[simp] theorem spaced_node {gap : Bool} {kind : String} {span : Span} {inside : Draft} :
    Spaced gap (node kind span inside) ↔ Spaced gap inside := by
  simp [node, spaced_cons, spacedOf_mark, Label.isName]

@[simp] theorem spaced_name (code label : String) (span : Span) :
    Spaced true (name code label span) := by
  refine spaced_cons.2 ⟨spacedOf_mark.2 ⟨fun _ => .inl rfl, ?_⟩, trivial⟩
  simp

mutual

theorem spacedOf_mono : ∀ {p : Piece} {gap gap' : Bool}, (gap = true → gap' = true) →
    SpacedOf gap p → SpacedOf gap' p ∧ (gapOf gap p = true → gapOf gap' p = true)
  | .text s, gap, gap', hg, _ => ⟨trivial, by simpa using fun h => h.imp_left hg⟩
  | .mark _ _ _ inside, _, _, hg, ⟨hname, hin⟩ =>
    ⟨⟨fun h => (hname h).imp_left hg, (spaced_mono hg hin).1⟩, id⟩
  | .block _ inside, _, _, hg, h => spaced_mono (d := inside) hg h
  | .issue _ _, _, _, hg, _ => ⟨trivial, hg⟩
  | .directive _ _ _, _, _, hg, _ => ⟨trivial, hg⟩

/-- More code before a draft does no harm. -/
theorem spaced_mono : ∀ {d : List Piece} {gap gap' : Bool}, (gap = true → gap' = true) →
    Spaced gap d → Spaced gap' d ∧ (gapAfter gap d = true → gapAfter gap' d = true)
  | [], _, _, hg, _ => ⟨trivial, hg⟩
  | p :: ps, _, _, hg, ⟨hp, hps⟩ => by
    obtain ⟨hp', hg'⟩ := spacedOf_mono hg hp
    obtain ⟨hps', hg''⟩ := spaced_mono hg' hps
    exact ⟨⟨hp', hps'⟩, hg''⟩

end

/-- A draft that needs no code before it. -/
theorem Spaced.any {d : Draft} (h : Spaced false d) (gap : Bool) : Spaced gap d :=
  (spaced_mono (by simp) h).1

theorem Spaced.after {gap : Bool} {d : Draft} (h : Spaced gap d) : Spaced true d :=
  (spaced_mono (by simp) h).1

mutual

theorem spacedOf_inside {m : Mark} : ∀ {p : Piece} {gap : Bool}, SpacedOf gap p →
    m ∈ allMarksOf p → Spaced true m.inside
  | .mark _ _ _ inside, _, ⟨_, h⟩, hm => by
    rcases List.mem_cons.1 hm with rfl | hm
    · exact h.after
    · exact spaced_inside h hm
  | .block _ inside, _, h, hm => spaced_inside (d := inside) h hm

/-- What a mark of a spaced draft holds is spaced. -/
theorem spaced_inside {m : Mark} : ∀ {d : List Piece} {gap : Bool}, Spaced gap d →
    m ∈ allMarks d → Spaced true m.inside
  | p :: ps, _, ⟨hp, hps⟩, hm => by
    rcases List.mem_append.1 hm with hm | hm
    · exact spacedOf_inside hp hm
    · exact spaced_inside hps hm

end

theorem Spaced.flatMap {α : Type} {f : α → Draft} : ∀ {xs : List α},
    (∀ x ∈ xs, Spaced false (f x)) → ∀ gap : Bool, Spaced gap (xs.flatMap f)
  | [], _, gap => spaced_nil gap
  | x :: _, h, gap => by
    rw [List.flatMap_cons, spaced_append]
    exact ⟨(h x List.mem_cons_self).any gap,
      Spaced.flatMap (fun y hy => h y (List.mem_cons_of_mem _ hy)) _⟩

-- From here on drafts are opened by these lemmas only: the code of an emitter is not to be computed.
attribute [irreducible] Spaced SpacedOf

end TypedTemplate.Draft
