/-
Drafts in drafts. `Stands x before d` says that the draft `x` is a part of `d`, at any depth of marks and
blocks, after the code `before`; so its code follows that code, its issues are some of
those of `d`, and its nodes are nodes below the trees of `d`.
-/
import TypedTemplate.Proofs.Draft.Trees

namespace TypedTemplate.Draft

open Mapping (Label Tree)

/-- The draft `x` stands in another one after the code `before`. -/
inductive Stands (x : Draft) : String → Draft → Prop
  | here (rest : Draft) : Stands x "" (x ++ rest)
  | after {before : String} {d : Draft} (a : Draft) :
      Stands x before d → Stands x (code a ++ before) (a ++ d)
  | mark {before : String} {inside : Draft} (label : Label) (span : Span) (keepEmpty : Bool)
      (rest : Draft) : Stands x before inside →
      Stands x before (.mark label span keepEmpty inside :: rest)
  | block {before : String} {inside : Draft} (names : List String) (rest : Draft) :
      Stands x before inside → Stands x before (.block names inside :: rest)

namespace Stands

variable {x y d : Draft} {before : String}

theorem refl (x : Draft) : Stands x "" x := by
  have h := here (x := x) []
  rwa [List.append_nil] at h

theorem left (h : Stands x before d) (rest : Draft) : Stands x before (d ++ rest) := by
  induction h with
  | here r =>
    rw [List.append_assoc]
    exact .here _
  | after a _ ih =>
    rw [List.append_assoc]
    exact .after a ih
  | mark label span keepEmpty r h _ => exact .mark label span keepEmpty _ h
  | block names r h _ => exact .block names _ h

theorem node (kind : String) (span : Span) (h : Stands x before d) :
    Stands x before (Draft.node kind span d) :=
  .mark _ _ _ [] h

theorem within (params : List Template.Name) (h : Stands x before d) :
    Stands x before (Draft.within params d) :=
  .block _ [] h

theorem trans {before' : String} (hx : Stands x before y) (hy : Stands y before' d) :
    Stands x (before' ++ before) d := by
  induction hy with
  | here rest =>
    rw [String.empty_append]
    exact hx.left rest
  | after a _ ih =>
    rw [String.append_assoc]
    exact .after a ih
  | mark label span keepEmpty rest _ ih => exact .mark label span keepEmpty rest ih
  | block names rest _ ih => exact .block names rest ih

theorem separated {separator : String} : ∀ {ds : List Draft}, x ∈ ds →
    ∃ before, Stands x before (Draft.separated separator ds)
  | [d], hx => by
    rw [List.mem_singleton.1 hx]
    exact ⟨"", refl d⟩
  | d :: e :: ds, hx => by
    rw [Draft.separated]
    · rcases List.mem_cons.1 hx with rfl | hx
      · exact ⟨"", ((refl x).left _).left _⟩
      · obtain ⟨before, h⟩ := separated hx
        exact ⟨_, .after _ h⟩
    · exact List.cons_ne_nil _ _

/-! ## Readings -/

theorem code_eq (h : Stands x before d) : ∃ rest, code d = before ++ code x ++ rest := by
  induction h with
  | here rest => exact ⟨code rest, by rw [code_append, String.empty_append]⟩
  | after a _ ih =>
    obtain ⟨rest, hrest⟩ := ih
    exact ⟨rest, by rw [code_append, hrest]; simp only [String.append_assoc]⟩
  | mark label span keepEmpty rest _ ih =>
    obtain ⟨more, hmore⟩ := ih
    exact ⟨more ++ code rest, by rw [code, codeOf, hmore]; simp only [String.append_assoc]⟩
  | block names rest _ ih =>
    obtain ⟨more, hmore⟩ := ih
    exact ⟨more ++ code rest, by rw [code, codeOf, hmore]; simp only [String.append_assoc]⟩

theorem issues_eq_nil (h : Stands x before d) (hd : issues d = []) : issues x = [] := by
  induction h with
  | here rest =>
    rw [issues_append] at hd
    exact (List.append_eq_nil_iff.1 hd).1
  | after a _ ih =>
    rw [issues_append] at hd
    exact ih (List.append_eq_nil_iff.1 hd).2
  | mark _ _ _ _ _ ih =>
    rw [issues, issuesOf] at hd
    exact ih (List.append_eq_nil_iff.1 hd).1
  | block _ _ _ ih =>
    rw [issues, issuesOf] at hd
    exact ih (List.append_eq_nil_iff.1 hd).1

theorem size_le (h : Stands x before d) : size x ≤ size d := by
  obtain ⟨rest, hrest⟩ := h.code_eq
  simp only [size_eq, hrest, Text.size_append]
  omega

/-- The nodes of a part that has code are nodes of the whole. -/
theorem mem_nodes (h : Stands x before d) (hx : 0 < size x) {delta : Nat} {t : Tree} :
    ∀ {start : Nat}, t ∈ trees delta (start + Text.size before) x →
      ∃ r ∈ trees delta start d, t ∈ r.nodes := by
  induction h with
  | here rest =>
    intro start ht
    rw [trees_append]
    exact ⟨t, List.mem_append_left _ ht, Tree.self_mem_nodes t⟩
  | @after before d a _ ih =>
    intro start ht
    rw [Text.size_append, ← size_eq, ← Nat.add_assoc] at ht
    obtain ⟨r, hr, htr⟩ := ih ht
    rw [trees_append]
    exact ⟨r, List.mem_append_right _ hr, htr⟩
  | @mark before inside label span keepEmpty rest h ih =>
    intro start ht
    obtain ⟨r, hr, htr⟩ := ih ht
    have hsize : (keepEmpty || size inside != 0) = true := by
      have := h.size_le
      simp only [Bool.or_eq_true, bne_iff_ne]
      omega
    refine ⟨Mark.tree ⟨label, span, keepEmpty, inside⟩ delta start, ?_, ?_⟩
    · rw [trees, treesOf_mark, if_pos hsize]
      exact List.mem_append_left _ (List.mem_singleton.2 rfl)
    · exact Tree.mem_nodes.2 (.inr ⟨r, hr, htr⟩)
  | block names rest _ ih =>
    intro start ht
    obtain ⟨r, hr, htr⟩ := ih ht
    rw [trees, treesOf]
    exact ⟨r, List.mem_append_left _ hr, htr⟩

end Stands

end TypedTemplate.Draft
