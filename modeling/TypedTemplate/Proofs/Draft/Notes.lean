/-
What a draft says about its template: its issues and its directives, in the order in which they come.
-/
import TypedTemplate.Draft

namespace TypedTemplate.Draft

inductive Note where
  | issue (cause : IssueCause) (span : Span)
  | directive (directive : LocalDirective)

def Note.issue? : Note → Option (IssueCause × Span)
  | .issue cause span => some (cause, span)
  | .directive _ => none

def Note.directive? : Note → Option LocalDirective
  | .issue _ _ => none
  | .directive l => some l

mutual

def notesOf : Piece → List Note
  | .text _ => []
  | .mark _ _ _ inside => notes inside
  | .block _ inside => notes inside
  | .issue cause span => [.issue cause span]
  | .directive kind location area => [.directive ⟨kind, location, area⟩]

/-- The issues and directives of a draft. -/
def notes : List Piece → List Note
  | [] => []
  | p :: ps => notesOf p ++ notes ps

end

mutual

theorem issuesOf_eq : ∀ p : Piece, issuesOf p = (notesOf p).filterMap Note.issue?
  | .text _ => rfl
  | .mark _ _ _ inside => issues_eq inside
  | .block _ inside => issues_eq inside
  | .issue _ _ => rfl
  | .directive _ _ _ => rfl

theorem issues_eq : ∀ d : List Piece, issues d = (notes d).filterMap Note.issue?
  | [] => rfl
  | p :: ps => by rw [issues, notes, List.filterMap_append, issuesOf_eq p, issues_eq ps]

end

mutual

theorem directivesOf_eq : ∀ p : Piece, directivesOf p = (notesOf p).filterMap Note.directive?
  | .text _ => rfl
  | .mark _ _ _ inside => directives_eq inside
  | .block _ inside => directives_eq inside
  | .issue _ _ => rfl
  | .directive _ _ _ => rfl

theorem directives_eq : ∀ d : List Piece, directives d = (notes d).filterMap Note.directive?
  | [] => rfl
  | p :: ps => by rw [directives, notes, List.filterMap_append, directivesOf_eq p, directives_eq ps]

end

theorem mem_notes_of_mem_issues {d : Draft} {i : IssueCause × Span} (h : i ∈ issues d) : .issue i.1 i.2 ∈ notes d := by
  rw [issues_eq] at h
  obtain ⟨n, hn, hi⟩ := List.mem_filterMap.1 h
  cases n <;> cases hi
  exact hn

theorem mem_notes_of_mem_directives {d : Draft} {l : LocalDirective} (h : l ∈ directives d) :
    .directive l ∈ notes d := by
  rw [directives_eq] at h
  obtain ⟨n, hn, hl⟩ := List.mem_filterMap.1 h
  cases n <;> cases hl
  exact hn

@[simp] theorem notes_nil : notes [] = [] := rfl

@[simp] theorem notes_append (a b : Draft) : notes (a ++ b) = notes a ++ notes b := by
  induction a with
  | nil => rfl
  | cons p ps ih => simp [notes, ih]

@[simp] theorem notes_text (code : String) (d : Draft) : notes (.text code :: d) = notes d := rfl

@[simp] theorem notes_issue (cause : IssueCause) (span : Span) (d : Draft) :
    notes (.issue cause span :: d) = .issue cause span :: notes d := rfl

@[simp] theorem notes_node (kind : String) (span : Span) (inside : Draft) :
    notes (node kind span inside) = notes inside := List.append_nil _

@[simp] theorem notes_within (params : List Template.Name) (inside : Draft) :
    notes (within params inside) = notes inside := List.append_nil _

@[simp] theorem notes_name (code label : String) (span : Span) : notes (name code label span) = [] := rfl

@[simp] theorem notes_flatMap {α : Type} (f : α → Draft) (as : List α) :
    notes (as.flatMap f) = as.flatMap fun a => notes (f a) := by
  induction as with
  | nil => rfl
  | cons a as ih => rw [List.flatMap_cons, notes_append, ih, List.flatMap_cons]

@[simp] theorem notes_separated (separator : String) (ds : List Draft) :
    notes (separated separator ds) = ds.flatMap notes := by
  fun_induction separated separator ds with
  | case1 => rfl
  | case2 d => simp
  | case3 d ds _ ih => simp [ih]

end TypedTemplate.Draft
