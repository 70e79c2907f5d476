/-
The search by code as a plain search. Halving passes over siblings that end too early and stops at one that
starts too late; where siblings follow one another in the code, none that is left out is around what is
looked for, however many of them are empty or touch. So the search is the one that goes down, from the
root, into the first child around the span, and it ends at a node around the span none of whose children
is.
-/
import TypedTemplate.Proofs.Mapping.Inside

namespace TypedTemplate.Mapping.Tree

open TypedTemplate.Span (InOrder)

/-! ## The plain search -/

mutual

/-- Goes down from a node, at each step into the first child around `range`, as far as there is one. -/
def descend (range : Span) : Tree → Tree
  | mk l s g cs => (descendAmong range cs).getD (mk l s g cs)

/-- Goes down into the first of some siblings that is around `range`. -/
def descendAmong (range : Span) : List Tree → Option Tree
  | [] => none
  | c :: cs => if c.generated.includes range then some (descend range c) else descendAmong range cs

end

/-- The deepest node around `range`, looked for child by child. -/
def linearSearch (range : Span) (t : Tree) : Option Tree :=
  if t.generated.includes range then some (t.descend range) else none

theorem descendAmong_eq (range : Span) (cs : List Tree) :
    descendAmong range cs = (cs.find? (·.generated.includes range)).map (descend range) := by
  induction cs with
  | nil => rfl
  | cons c cs ih =>
    rw [descendAmong, List.find?_cons]
    by_cases hc : c.generated.includes range = true
    · simp [hc]
    · simp [hc, ih]

theorem linearSearch_eq_none {range : Span} {t : Tree} :
    t.linearSearch range = none ↔ t.generated.includes range = false := by
  unfold linearSearch
  by_cases h : t.generated.includes range = true
  · simp [h]
  · simp [h]

/-- Going down from a node around a span ends at a node around it, and no child of that node is. -/
theorem descend_spec {range : Span} {t : Tree} (h : t.generated.includes range = true) :
    t.descend range ∈ t.nodes ∧ (t.descend range).generated.includes range = true ∧
      ∀ c ∈ (t.descend range).children, c.generated.includes range = false := by
  induction t using children_induction with
  | node t ih =>
    obtain ⟨l, s, g, cs⟩ := t
    rw [descend, descendAmong_eq]
    cases hfind : cs.find? (·.generated.includes range) with
    | none =>
      refine ⟨self_mem_nodes _, h, fun c hc => ?_⟩
      have := List.find?_eq_none.1 hfind c hc
      simpa using this
    | some c =>
      have hc : c ∈ cs := List.mem_of_find?_eq_some hfind
      have hincludes : c.generated.includes range = true := by simpa using List.find?_some hfind
      obtain ⟨hmem, hspec⟩ := ih c hc hincludes
      exact ⟨mem_nodes.2 (.inr ⟨c, hc, hmem⟩), hspec⟩

/-! ## The two searches agree -/

/-- The first answer of some siblings is that of the first one around the span. -/
theorem findSome?_narrowestGenerated {range : Span} {cs : List Tree}
    (h : ∀ c ∈ cs, c.narrowestGenerated range = c.linearSearch range) :
    cs.findSome? (narrowestGenerated range) = descendAmong range cs := by
  induction cs with
  | nil => rfl
  | cons c cs ih =>
    rw [descendAmong, List.findSome?_cons, h c List.mem_cons_self, linearSearch]
    by_cases hc : c.generated.includes range = true
    · simp [hc]
    · simp [hc, ih fun d hd => h d (List.mem_cons_of_mem c hd)]

theorem narrowestGenerated_eq_linearSearch {t : Tree} (h : t.Sequenced) {range : Span}
    (hrange : range.start ≤ range.stop) : t.narrowestGenerated range = t.linearSearch range := by
  induction t using children_induction with
  | node t ih =>
    obtain ⟨horder, hchildren⟩ := sequenced_iff.1 h
    have hsame : t.children.findSome? (narrowestGenerated range) = descendAmong range t.children :=
      findSome?_narrowestGenerated fun c hc => ih c hc (hchildren c hc)
    obtain ⟨l, s, g, cs⟩ := t
    rw [narrowestGenerated_eq horder hrange, hsame, linearSearch, descend]
    rfl

/-- Where children follow one another in the code of their parent, the search by halving is the plain one
that goes down into the first child around the span. It finds nothing exactly if the root is not around the
span; else it finds a node around the span none of whose children is. -/
theorem halving_finds_first_around {t : Tree} (h : t.Sequenced) {range : Span}
    (hrange : range.start ≤ range.stop) :
    t.narrowestGenerated range = t.linearSearch range ∧
      (t.narrowestGenerated range = none ↔ t.generated.includes range = false) ∧
      ∀ n, t.narrowestGenerated range = some n →
        n ∈ t.nodes ∧ n.generated.includes range = true ∧
          ∀ c ∈ n.children, c.generated.includes range = false := by
  have heq := narrowestGenerated_eq_linearSearch h hrange
  refine ⟨heq, ?_, fun n hn => ?_⟩
  · rw [heq]
    exact linearSearch_eq_none
  · rw [heq, linearSearch] at hn
    split at hn
    · rename_i hincludes
      cases hn
      exact descend_spec hincludes
    · cases hn

/-- A mark without code stands between two names that touch; the earlier name is taken. -/
theorem halving_finds_first_around_mark :
    (mk .template ⟨0, 10⟩ ⟨0, 10⟩
      [mk (.name "a") ⟨0, 3⟩ ⟨0, 3⟩ [], mk .text ⟨3, 4⟩ ⟨3, 3⟩ [],
        mk (.node "PathExpression") ⟨4, 7⟩ ⟨3, 6⟩ [mk (.name "b") ⟨4, 7⟩ ⟨3, 6⟩ []]]).narrowestGenerated
      (.empty 3) = some (mk (.name "a") ⟨0, 3⟩ ⟨0, 3⟩ []) := by
  rw [(halving_finds_first_around ?_ le_rfl).1]
  · rfl
  · simp [Sequenced, nodes_mk, InOrder, generated, children]

end TypedTemplate.Mapping.Tree
