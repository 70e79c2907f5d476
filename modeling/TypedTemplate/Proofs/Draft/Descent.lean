/-
Coming down to a node. A node of a tree is sought by the span it stands for: whatever stands for what comes
before that span, or after it, does not hold the node and may be passed over. `At` says that the search has
come to a part of a draft. The nodes of that part are children of one node of the tree, and the children
before them stand for what comes before the sought node.
-/
import TypedTemplate.Proofs.Draft.Trees
import TypedTemplate.Proofs.Mapping.Inside

namespace TypedTemplate.Draft

open Mapping (Label Tree)

mutual

theorem length_treesOf_le (delta : Nat) : ∀ (p : Piece) (start : Nat),
    (treesOf delta start p).length ≤ (marksOf p).length
  | .mark label span keepEmpty inside, start => by
    rw [treesOf_mark]
    split <;> simp
  | .block _ inside, start => length_trees_le delta inside start
  | .text _, _ => Nat.le_refl _
  | .issue _ _, _ => Nat.le_refl _
  | .directive _ _ _, _ => Nat.le_refl _

/-- A draft has at most one node for each of its outermost marks. -/
theorem length_trees_le (delta : Nat) : ∀ (d : List Piece) (start : Nat),
    (trees delta start d).length ≤ (marks d).length
  | [], _ => Nat.le_refl _
  | p :: ps, start => by
    rw [trees, marks_cons, List.length_append, List.length_append]
    exact Nat.add_le_add (length_treesOf_le delta p start) (length_trees_le delta ps _)

end

/-- A node that is sought in a tree by the span of the template it stands for, with the directives that come
with the tree. -/
structure Sought where
  root : Tree
  found : Tree
  delta : Nat
  span : Span
  directives : List LocalDirective
  sound : root.Sound
  source : found.source = span.shift delta
  nonempty : span.start < span.stop

namespace Sought

variable {q : Sought} {p : Tree} {start : Nat} {d front rest : Draft}

/-- The marks of a draft stand for what comes before the sought node. -/
def Passed (q : Sought) (ms : List Mark) : Prop := ∀ m ∈ ms, m.span.stop ≤ q.span.start

/-- The marks of a draft stand for what comes after the sought node. -/
def Ahead (q : Sought) (ms : List Mark) : Prop := ∀ m ∈ ms, q.span.stop ≤ m.span.start

theorem passed_of_placed {cells : List Span} {ms : List Mark} (h : Placed cells ms)
    (hc : ∀ c ∈ cells, c.stop ≤ q.span.start) : q.Passed ms := by
  intro m hm
  obtain ⟨c, hmem, hin⟩ := h.within m hm
  exact hin.upper.trans (hc c hmem)

theorem ahead_of_placed {cells : List Span} {ms : List Mark} (h : Placed cells ms)
    (hc : ∀ c ∈ cells, q.span.stop ≤ c.start) : q.Ahead ms := by
  intro m hm
  obtain ⟨c, hmem, hin⟩ := h.within m hm
  exact (hc c hmem).trans hin.lower

/-- The sought node is below the nodes of a draft, which are children of `p`. -/
structure At (q : Sought) (p : Tree) (start : Nat) (d : Draft) : Prop where
  parent : p ∈ q.root.nodes
  starts : p.generated.start ≤ start
  children : ∃ before after, p.children = before ++ trees q.delta start d ++ after ∧
    ∀ b ∈ before, b.source.stop ≤ q.found.source.start
  below : ∃ t ∈ trees q.delta start d, q.found ∈ t.nodes
  directives : ∀ l ∈ Draft.directives d, l ∈ q.directives

/-- The nodes of a part are sound. -/
theorem At.sound (h : q.At p start d) {t : Tree} (ht : t ∈ trees q.delta start d) : t.Sound := by
  obtain ⟨before, after, hcs, -⟩ := h.children
  have hmem : t ∈ q.root.nodes := Tree.mem_nodes_child h.parent (by simp [hcs, ht])
  exact fun n hn => q.sound n (Tree.mem_nodes_trans hmem hn)

/-- A node around the sought one stands for a span around the sought one. -/
theorem around_of_mem {m : Mark} {place : Nat} (hsound : (m.tree q.delta place).Sound)
    (h : q.found ∈ (m.tree q.delta place).nodes) :
    m.span.start ≤ q.span.start ∧ q.span.stop ≤ m.span.stop := by
  obtain ⟨⟨hstart, hstop⟩, -⟩ := hsound.within h
  rw [q.source] at hstart hstop
  simp only [Mark.tree, Tree.source, Span.shift] at hstart hstop
  omega

theorem At.exists_mark (h : q.At p start d) :
    ∃ m ∈ marks d, m.span.start ≤ q.span.start ∧ q.span.stop ≤ m.span.stop := by
  obtain ⟨t, ht, hbelow⟩ := h.below
  have hsound := h.sound ht
  obtain ⟨m, hm, place, rfl⟩ := mem_trees ht
  exact ⟨m, hm, around_of_mem hsound hbelow⟩

theorem At.marks_ne_nil (h : q.At p start d) : marks d ≠ [] := by
  obtain ⟨m, hm, -⟩ := h.exists_mark
  exact List.ne_nil_of_mem hm

/-! ## Parts -/

/-- What comes after the sought node is left out. -/
theorem At.left (h : q.At p start (d ++ rest)) (hrest : q.Ahead (marks rest)) : q.At p start d := by
  obtain ⟨before, after, hcs, hbefore⟩ := h.children
  obtain ⟨t, ht, hbelow⟩ := h.below
  have hsound := h.sound ht
  rw [trees_append] at hcs ht
  refine ⟨h.parent, h.starts, ?_, ?_, ?_⟩
  · refine ⟨before, trees q.delta (start + size d) rest ++ after, ?_, hbefore⟩
    rw [hcs]
    simp only [List.append_assoc]
  · rcases List.mem_append.1 ht with ht | ht
    · exact ⟨t, ht, hbelow⟩
    · exfalso
      obtain ⟨m, hm, place, rfl⟩ := mem_trees ht
      have hle := (around_of_mem hsound hbelow).1
      have := hrest m hm
      have := q.nonempty
      omega
  · intro l hl
    exact h.directives l (by rw [directives_append]; exact List.mem_append_left _ hl)

/-- What comes before the sought node is passed. -/
theorem At.right (h : q.At p start (front ++ d)) (hfront : q.Passed (marks front)) :
    q.At p (start + size front) d := by
  obtain ⟨before, after, hcs, hbefore⟩ := h.children
  obtain ⟨t, ht, hbelow⟩ := h.below
  have hsound := h.sound ht
  rw [trees_append] at hcs ht
  refine ⟨h.parent, h.starts.trans (Nat.le_add_right _ _), ?_, ?_, ?_⟩
  · refine ⟨before ++ trees q.delta start front, after, ?_, fun b hb => ?_⟩
    · rw [hcs]
      simp only [List.append_assoc]
    · rcases List.mem_append.1 hb with hb | hb
      · exact hbefore b hb
      · obtain ⟨m, hm, place, rfl⟩ := mem_trees hb
        rw [q.source]
        exact Nat.add_le_add_right (hfront m hm) q.delta
  · rcases List.mem_append.1 ht with ht | ht
    · exfalso
      obtain ⟨m, hm, place, rfl⟩ := mem_trees ht
      have hle := (around_of_mem hsound hbelow).2
      have := hfront m hm
      have := q.nonempty
      omega
    · exact ⟨t, ht, hbelow⟩
  · intro l hl
    exact h.directives l (by rw [directives_append]; exact List.mem_append_right _ hl)

/-- A piece without marks is passed. -/
theorem At.skip {x : Piece} (h : q.At p start (x :: d)) (hx : marksOf x = []) :
    q.At p (start + lengthOf x) d := by
  have hpassed : q.Passed (marks [x]) := by simp [Passed, hx]
  exact At.right h hpassed

theorem At.within {params : List Template.Name} (h : q.At p start (Draft.within params d)) :
    q.At p start d := by
  have htrees : trees q.delta start (Draft.within params d) = trees q.delta start d := by
    simp [Draft.within, trees, treesOf]
  refine ⟨h.parent, h.starts, ?_, ?_, ?_⟩
  · rw [← htrees]
    exact h.children
  · rw [← htrees]
    exact h.below
  · intro l hl
    refine h.directives l ?_
    simpa [Draft.within, Draft.directives, directivesOf] using hl

/-- The node of a mark that the sought one is at or below. -/
theorem At.mark {label : Label} {span : Span} {keepEmpty : Bool}
    (h : q.At p start [.mark label span keepEmpty d]) :
    trees q.delta start [.mark label span keepEmpty d] =
        [Mark.tree ⟨label, span, keepEmpty, d⟩ q.delta start] ∧
      q.found ∈ (Mark.tree ⟨label, span, keepEmpty, d⟩ q.delta start).nodes := by
  obtain ⟨t, ht, hbelow⟩ := h.below
  have htrees : trees q.delta start [.mark label span keepEmpty d] =
      treesOf q.delta start (.mark label span keepEmpty d) := by
    simp [trees]
  rw [htrees] at ht ⊢
  rw [treesOf_mark] at ht ⊢
  split at ht
  · rename_i hkept
    rw [if_pos hkept]
    rw [List.mem_singleton.1 ht] at hbelow
    exact ⟨rfl, hbelow⟩
  · cases ht

/-- A construct that is not the sought one is entered. -/
theorem At.node {kind : String} {span : Span} (h : q.At p start (Draft.node kind span d))
    (hne : span ≠ q.span) : ∃ p', q.At p' start d ∧ p'.generated.start = start := by
  obtain ⟨htrees, hbelow⟩ := h.mark
  obtain ⟨before, after, hcs, -⟩ := h.children
  let t := Mark.tree ⟨.node kind, span, false, d⟩ q.delta start
  have hmem : t ∈ q.root.nodes := Tree.mem_nodes_child h.parent (by rw [hcs, Draft.node, htrees]; simp [t])
  refine ⟨t, ⟨hmem, le_rfl, ⟨[], [], by simp [t, Mark.tree, Tree.children], by simp⟩, ?_, ?_⟩, rfl⟩
  · rcases Tree.mem_nodes.1 hbelow with heq | hbelow
    · have hsource := q.source
      rw [heq] at hsource
      simp only [Mark.tree, Tree.source, Span.shift, Span.mk.injEq, Nat.add_right_cancel_iff] at hsource
      exact absurd (by rw [Span.mk.injEq]; exact hsource) hne
    · exact hbelow
  · intro l hl
    refine h.directives l ?_
    simpa [Draft.node, Draft.directives, directivesOf] using hl

/-! ## The node itself -/

section
variable {m : Mark} (h : q.At p start d) (hm : marks d = [m]) (hspan : m.span = q.span)
  (hinset : ∀ k ∈ marks m.inside, k.span.In (q.span.start + 1) (q.span.stop - 1))
include h hm hspan hinset

/-- If a part has one mark, of the sought span, that keeps what it holds away from its ends, the sought node
is the one of that mark. -/
theorem At.eq_tree :
    trees q.delta start d = [q.found] ∧ ∃ place, start ≤ place ∧ q.found = m.tree q.delta place := by
  obtain ⟨t, ht, hbelow⟩ := h.below
  have hsound := h.sound ht
  have hone : trees q.delta start d = [t] := by
    have hle := length_trees_le q.delta d start
    rw [hm] at hle
    obtain ⟨before, after, heq⟩ := List.append_of_mem ht
    rw [heq] at hle ⊢
    simp only [List.length_append, List.length_cons, List.length_nil] at hle
    rw [List.eq_nil_of_length_eq_zero (show before.length = 0 by omega),
      List.eq_nil_of_length_eq_zero (show after.length = 0 by omega)]
    rfl
  have hstart := ((inOrder_trees q.delta d start).inside t.generated (List.mem_map_of_mem ht)).lower
  obtain ⟨k, hk, place, rfl⟩ := mem_trees ht
  obtain rfl : k = m := by simpa [hm] using hk
  have hfound : q.found = k.tree q.delta place := by
    rcases Tree.mem_nodes.1 hbelow with heq | ⟨c, hc, hbelow⟩
    · exact heq
    · exfalso
      have hchild := hsound.child hc
      obtain ⟨n, hn, place', rfl⟩ := mem_trees hc
      have := (around_of_mem hchild hbelow).1
      have := (hinset n hn).lower
      omega
  exact ⟨by rw [hone, hfound], place, hstart, hfound⟩

theorem At.inset : q.found.Inset := by
  obtain ⟨-, place, -, hfound⟩ := h.eq_tree hm hspan hinset
  intro c hc
  rw [hfound] at hc
  obtain ⟨k, hk, place', rfl⟩ := mem_trees hc
  have hin := (hinset k hk).shift q.delta
  have := q.nonempty
  rw [q.source]
  refine hin.mono ?_ ?_ <;> simp only [Span.shift] <;> omega

theorem At.fronted (hstart : p.generated.start < start) : q.root.Fronted q.found := by
  obtain ⟨htrees, place, hle, hfound⟩ := h.eq_tree hm hspan hinset
  obtain ⟨before, after, hcs, hbefore⟩ := h.children
  rw [htrees] at hcs
  refine ⟨p, h.parent, before, after, by rw [hcs]; simp, ?_, hbefore⟩
  rw [hfound]
  exact hstart.trans_le hle

end

end Sought

end TypedTemplate.Draft
