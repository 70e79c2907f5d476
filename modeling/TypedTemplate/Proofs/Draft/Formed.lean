/-
Drafts that fit into code. A draft is formed if its code closes the brackets, strings and literals that it opens, and
none other, and if code stands between the end of a mark and the next name. What is written piece by piece flows
from the brackets that are open before it to those that it leaves open.
-/
import TypedTemplate.Proofs.Code.Reading
import TypedTemplate.Proofs.Draft.Spaced

namespace TypedTemplate.Draft

open Code (Opener)

/-- In code with the brackets `k` open, the code of a draft leaves the brackets `l` open. -/
def Reads (k l : List Opener) (d : Draft) : Prop := Code.Reads k l (code d).toList

/-- A draft whose code leaves the brackets around it as they are. -/
def Bracketed (d : Draft) : Prop := Code.Bracketed (code d).toList

/-- A bracketed draft with code between its marks; `gap` says whether it needs code before it. -/
structure Formed (gap : Bool) (d : Draft) : Prop where
  bracketed : Bracketed d
  spaced : Spaced gap d

/-- A part of a formed draft. `gap` says whether it needs code before it, and `gap'` whether it ends with code. -/
structure Flows (gap : Bool) (k l : List Opener) (gap' : Bool) (d : Draft) : Prop where
  reads : Reads k l d
  spaced : Spaced gap d
  ends : gap' = true → gapAfter gap d = true

/-- The brackets that are open after a text with characters. -/
def adds (k : List Opener) (text : String) : Option (List Opener) :=
  if text.toList.isEmpty then none else Code.after k text

section
variable {k l l' : List Opener} {gap gap₁ gap₂ : Bool} {d e : Draft} {text : String}

theorem Reads.append (hd : Reads k l d) (he : Reads l l' e) : Reads k l' (d ++ e) := by
  rw [Reads, code_append, String.toList_append]
  exact Code.Reads.append hd he

theorem Bracketed.reads (h : Bracketed d) (k : List Opener) : Reads k k d := Code.Bracketed.reads h k

theorem Bracketed.append (hd : Bracketed d) (he : Bracketed e) : Bracketed (d ++ e) := by
  rw [Bracketed, code_append, String.toList_append]
  exact Code.Bracketed.append hd he

theorem reads_text (h : Code.after k text = some l) : Reads k l [.text text] := by
  rw [Reads, code, codeOf, code, String.append_empty]
  exact Code.reads_of_after h

theorem bracketed_text (h : Code.after [] text = some []) : Bracketed [.text text] :=
  Code.Reads.bracketed (reads_text h)

/-! ## Flows -/

theorem Formed.flows (h : Formed gap d) (k : List Opener) : Flows gap k k false d :=
  ⟨h.bracketed.reads k, h.spaced, nofun⟩

theorem Flows.formed (h : Flows gap [] [] gap₁ d) : Formed gap d := ⟨Code.Reads.bracketed h.reads, h.spaced⟩

theorem Flows.append (hd : Flows gap k l gap₁ d) (he : Flows gap₁ l l' gap₂ e) : Flows gap k l' gap₂ (d ++ e) := by
  obtain ⟨hspaced, hgap⟩ := spaced_mono hd.ends he.spaced
  refine ⟨hd.reads.append he.reads, spaced_append.2 ⟨hd.spaced, hspaced⟩, fun hends => ?_⟩
  rw [gapAfter_append]
  exact hgap (he.ends hends)

theorem of_adds (h : adds k text = some l) : text ≠ "" ∧ Code.after k text = some l := by
  unfold adds at h
  split at h
  · cases h
  · rename_i hne
    refine ⟨?_, h⟩
    rintro rfl
    exact hne rfl

theorem flows_text (h : adds k text = some l) : Flows gap k l true [.text text] := by
  obtain ⟨hne, hafter⟩ := of_adds h
  exact ⟨reads_text hafter, by simp, fun _ => by simp [hne]⟩

theorem Flows.flatMap {α : Type} {f : α → Draft} {xs : List α} (h : ∀ x ∈ xs, Flows true [] [] true (f x)) :
    Flows true [] [] true (xs.flatMap f) := by
  induction xs with
  | nil => exact ⟨Code.bracketed_nil.reads [], spaced_nil true, fun _ => rfl⟩
  | cons x xs ih =>
    rw [List.flatMap_cons]
    exact (h x List.mem_cons_self).append (ih fun y hy => h y (List.mem_cons_of_mem x hy))

/-! ## Formed drafts -/

theorem Formed.any (h : Formed false d) (gap : Bool) : Formed gap d := ⟨h.bracketed, h.spaced.any gap⟩

theorem Formed.append (hd : Formed gap d) (he : Formed false e) : Formed gap (d ++ e) :=
  ((hd.flows []).append (he.flows [])).formed

theorem formed_nil : Formed gap [] := ⟨Code.bracketed_nil, spaced_nil gap⟩

theorem formed_text (h : adds [] text = some []) : Formed gap [.text text] := (flows_text h).formed

theorem formed_code (h : Code.Bracketed text.toList) : Formed gap [.text text] := by
  refine ⟨?_, by simp⟩
  rwa [Bracketed, code, codeOf, code, String.append_empty]

theorem formed_name (label : String) (span : Span) (h : Code.Bracketed text.toList) :
    Formed true (Draft.name text label span) := by
  refine ⟨?_, spaced_name text label span⟩
  rw [Bracketed, Draft.name, code, codeOf, code, String.append_empty]
  have hcode : Formed true [.text text] := formed_code h
  exact hcode.bracketed

theorem Formed.node (h : Formed gap d) (kind : String) (span : Span) : Formed gap (Draft.node kind span d) := by
  refine ⟨?_, spaced_node.2 h.spaced⟩
  rw [Bracketed, Draft.node, code, codeOf, code, String.append_empty]
  exact h.bracketed

theorem Formed.within (h : Formed gap d) (params : List Template.Name) : Formed gap (Draft.within params d) := by
  refine ⟨?_, spaced_within.2 h.spaced⟩
  rw [Bracketed, Draft.within, code, codeOf, code, String.append_empty]
  exact h.bracketed

theorem formed_issue (cause : IssueCause) (span : Span) : Formed gap [.issue cause span] :=
  ⟨Code.bracketed_nil, by simp⟩

theorem formed_directive (kind : DirectiveKind) (location : Span) (area : Option Span) :
    Formed gap [.directive kind location area] :=
  ⟨Code.bracketed_nil, by simp⟩

theorem formed_flatMap {α : Type} {f : α → Draft} {xs : List α} (h : ∀ x ∈ xs, Formed false (f x)) :
    Formed gap (xs.flatMap f) := by
  induction xs generalizing gap with
  | nil => exact formed_nil
  | cons x xs ih =>
    rw [List.flatMap_cons]
    exact ((h x List.mem_cons_self).any gap).append (ih fun y hy => h y (List.mem_cons_of_mem x hy))

theorem formed_separated {separator : String} (hs : adds [] separator = some []) :
    ∀ {ds : List Draft}, (∀ d ∈ ds, Formed true d) → Formed true (separated separator ds)
  | [], _ => formed_nil
  | [d], h => h d List.mem_cons_self
  | d :: _ :: _, h => by
    have hrest := formed_separated hs fun d' hd => h d' (List.mem_cons_of_mem d hd)
    exact ((((h d List.mem_cons_self).flows []).append (flows_text hs)).append (hrest.flows [])).formed

end

end TypedTemplate.Draft
