/-
Where the searches of a mapping tree end. They always end at a node of the tree around what is looked
for. In a sound tree they do not miss a name: on the side of the code, a span in the code of a name
leads to that name; on the side of the source, a position inside a name leads to that name or to one
that says the same.
-/
import TypedTemplate.Proofs.Mapping.Sound
import TypedTemplate.Proofs.Search

namespace TypedTemplate.Mapping.Tree

open TypedTemplate.Span (In InOrder Apart)

/-- Every node lies in the root, on both sides. -/
theorem Sound.within {t n : Tree} (h : t.Sound) (hn : n ∈ t.nodes) :
    (t.source.start ≤ n.source.start ∧ n.source.stop ≤ t.source.stop) ∧
      t.generated.start ≤ n.generated.start ∧ n.generated.stop ≤ t.generated.stop := by
  induction t using children_induction with
  | node t ih =>
    rcases mem_nodes.1 hn with rfl | ⟨c, hc, hn⟩
    · exact ⟨⟨le_rfl, le_rfl⟩, le_rfl, le_rfl⟩
    · obtain ⟨⟨hs₁, hs₂⟩, hg₁, hg₂⟩ := ih c hc (h.child hc) hn
      have hs := h.refined.sources c hc
      have hg := h.refined.inOrder.inside c.generated (List.mem_map_of_mem hc)
      exact ⟨⟨hs.lower.trans hs₁, hs₂.trans hs.upper⟩, hg.lower.trans hg₁, hg₂.trans hg.upper⟩

/-! ## By code -/

theorem narrowestGeneratedAmong_append (range : Span) (after before : List Tree) :
    narrowestGeneratedAmong range before.length (before ++ after) =
      narrowestGeneratedAmong range 0 after := by
  induction before with
  | nil => rfl
  | cons b before ih => rw [List.length_cons, List.cons_append, narrowestGeneratedAmong, ih]

mutual

/-- The answer is a node of the tree, and its code is around the span. -/
theorem mem_of_narrowestGenerated {range : Span} {n : Tree} :
    ∀ {t : Tree}, t.narrowestGenerated range = some n →
      n ∈ t.nodes ∧ n.generated.includes range = true
  | mk l s g cs, h => by
    rw [narrowestGenerated] at h
    split at h
    · rename_i hincludes
      dsimp only at h
      split at h
      · rename_i found hfound
        obtain ⟨c, hc, hn, hr⟩ := mem_of_narrowestGeneratedAmong hfound
        cases h
        exact ⟨mem_nodes.2 (.inr ⟨c, hc, hn⟩), hr⟩
      · cases h
        exact ⟨self_mem_nodes _, hincludes⟩
    · cases h

theorem mem_of_narrowestGeneratedAmong {range : Span} {n : Tree} :
    ∀ {cs : List Tree} {skip : Nat}, narrowestGeneratedAmong range skip cs = some n →
      ∃ c ∈ cs, n ∈ c.nodes ∧ n.generated.includes range = true
  | [], _, h => by cases h
  | c :: cs, 0, h => by
    rw [narrowestGeneratedAmong] at h
    split at h
    · cases h
    · split at h
      · rename_i found hfound
        cases h
        exact ⟨c, List.mem_cons_self, mem_of_narrowestGenerated hfound⟩
      · obtain ⟨c', hc', hn⟩ := mem_of_narrowestGeneratedAmong h
        exact ⟨c', List.mem_cons_of_mem c hc', hn⟩
  | c :: cs, skip + 1, h => by
    rw [narrowestGeneratedAmong] at h
    obtain ⟨c', hc', hn⟩ := mem_of_narrowestGeneratedAmong h
    exact ⟨c', List.mem_cons_of_mem c hc', hn⟩

end

theorem exists_narrowestGenerated {range : Span} {t : Tree} (h : t.generated.includes range = true) :
    ∃ n, t.narrowestGenerated range = some n := by
  obtain ⟨l, s, g, cs⟩ := t
  rw [generated] at h
  rw [narrowestGenerated, if_pos h]
  dsimp only
  split
  · exact ⟨_, rfl⟩
  · exact ⟨_, rfl⟩

/-- A search descends into the child that is around a span, if those before it end earlier. -/
theorem narrowestGenerated_child {t c n : Tree} {range : Span} {before after : List Tree}
    (h : t.Refined) (hcs : t.children = before ++ c :: after)
    (hbefore : ∀ b ∈ before, b.generated.stop < range.start)
    (hc : range.In c.generated.start c.generated.stop)
    (hn : c.narrowestGenerated range = some n) : t.narrowestGenerated range = some n := by
  obtain ⟨l, s, g, cs⟩ := t
  simp only [children] at hcs
  subst hcs
  have hinside := h.inOrder.inside c.generated (List.mem_map_of_mem (by simp [children]))
  have hincludes : g.includes range = true :=
    (hc.mono hinside.lower hinside.upper).includes
  -- all that follows the child ends after it
  have hafter : ∀ a ∈ c :: after, decide (a.generated.stop < range.start) = false := by
    intro a ha
    have hle : c.generated.stop ≤ a.generated.stop := by
      rcases List.mem_cons.1 ha with rfl | ha
      · exact le_rfl
      · have hp := List.pairwise_map.1 h.inOrder.pairwise
        have hstart := (List.pairwise_cons.1 (List.pairwise_append.1 hp).2.1).1 a ha
        have hordered := (h.inOrder.inside a.generated
          (List.mem_map_of_mem (by simp [children, ha]))).ordered
        exact hstart.trans hordered
    have := hc.ordered
    have := hc.upper
    exact decide_eq_false (by omega)
  have hskip := partitionPoint_append (p := fun c => decide (c.generated.stop < range.start))
    (fun b hb => decide_eq_true (hbefore b hb)) hafter
  have hlate : ¬ range.start < c.generated.start := Nat.not_lt.2 hc.lower
  rw [narrowestGenerated, if_pos hincludes]
  dsimp only
  rw [hskip, narrowestGeneratedAmong_append, narrowestGeneratedAmong, if_neg hlate, hn]

/-- A span in the code of a name leads to the name. -/
theorem narrowestGenerated_named {t x : Tree} {range : Span} (h : t.Sound) (hx : x ∈ t.nodes)
    (hnamed : x.IsNamed) (hr : range.In x.generated.start x.generated.stop) :
    t.narrowestGenerated range = some x := by
  induction t using children_induction with
  | node t ih =>
    rcases mem_nodes.1 hx with rfl | ⟨c, hc, hxc⟩
    · obtain ⟨l, s, g, cs⟩ := x
      obtain rfl : cs = [] := h.refined.leaf hnamed.1
      have hincludes : g.includes range = true := hr.includes
      rw [narrowestGenerated, if_pos hincludes]
      rfl
    · obtain ⟨before, after, hcs⟩ := List.append_of_mem hc
      obtain ⟨-, hlower, hupper⟩ := (h.child hc).within hxc
      refine narrowestGenerated_child h.refined hcs (fun b hb => ?_) (hr.mono hlower hupper)
        (ih c hc (h.child hc) hxc)
      -- code stands between the end of an earlier sibling and the name
      have hspaced := h.refined.spaced
      rw [hcs] at hspaced
      have hgap := (List.pairwise_append.1 hspaced).2.2 b hb c List.mem_cons_self
      exact (hgap x hxc hnamed).trans_le hr.lower

/-! ## By source -/

theorem narrowestSourceAmong_eq (range : Span) (cs : List Tree) :
    narrowestSourceAmong range cs = cs.findSome? (narrowestSource range) := by
  induction cs with
  | nil => rfl
  | cons c cs ih =>
    rw [narrowestSourceAmong, List.findSome?_cons, ih]
    cases c.narrowestSource range <;> rfl

theorem narrowestSource_eq (range : Span) (t : Tree) :
    t.narrowestSource range =
      if t.source.includes range then
        some ((t.children.findSome? (narrowestSource range)).getD t)
      else none := by
  obtain ⟨l, s, g, cs⟩ := t
  rw [narrowestSource, narrowestSourceAmong_eq, source, children]
  cases cs.findSome? (narrowestSource range) <;> rfl

/-- The answer is a node of the tree, and its source is around the span. -/
theorem mem_of_narrowestSource {range : Span} {t n : Tree} (h : t.narrowestSource range = some n) :
    n ∈ t.nodes ∧ n.source.includes range = true := by
  induction t using children_induction with
  | node t ih =>
    rw [narrowestSource_eq] at h
    split at h
    · rename_i hincludes
      cases hfound : t.children.findSome? (narrowestSource range) with
      | none =>
        rw [hfound] at h
        cases h
        exact ⟨self_mem_nodes t, hincludes⟩
      | some found =>
        rw [hfound] at h
        cases h
        obtain ⟨c, hc, hn⟩ := List.exists_of_findSome?_eq_some hfound
        obtain ⟨hmem, hr⟩ := ih c hc hn
        exact ⟨mem_nodes.2 (.inr ⟨c, hc, hmem⟩), hr⟩
    · cases h

theorem exists_narrowestSource {range : Span} {t : Tree} (h : t.source.includes range = true) :
    ∃ n, t.narrowestSource range = some n :=
  ⟨_, by rw [narrowestSource_eq, if_pos h]⟩

/-- What one tree says of a node, a tree with the same profile says of a node of its own. -/
theorem exists_of_profile_eq {a b x : Tree} (h : a.profile = b.profile) (hx : x ∈ b.nodes) :
    ∃ y ∈ a.nodes, y.label = x.label ∧ y.source = x.source ∧
      y.generated.length = x.generated.length := by
  have hmem : (x.label, x.source, x.generated.length) ∈ a.profile := by
    rw [h]
    exact List.mem_map_of_mem hx
  obtain ⟨y, hy, heq⟩ := List.mem_map.1 hmem
  simp only [Prod.mk.injEq] at heq
  exact ⟨y, hy, heq⟩

/-- A position inside a name leads to a name with the same source and as much code. -/
theorem narrowestSource_named {t x : Tree} {o : Nat} (h : t.Sound) (hx : x ∈ t.nodes)
    (hname : x.label.isName = true) (hlower : x.source.start < o) (hupper : o < x.source.stop) :
    ∃ n ∈ t.nodes, t.narrowestSource (.empty o) = some n ∧ n.label = x.label ∧
      n.source = x.source ∧ n.generated.length = x.generated.length := by
  induction t using children_induction generalizing x with
  | node t ih =>
    obtain ⟨⟨hs₁, hs₂⟩, -⟩ := h.within hx
    have hincludes : t.source.includes (.empty o) = true :=
      Span.includes_iff.2 ⟨hs₁.trans hlower.le, hupper.le.trans hs₂⟩
    rw [narrowestSource_eq, if_pos hincludes]
    rcases mem_nodes.1 hx with rfl | ⟨c, hc, hxc⟩
    · rw [h.refined.leaf hname]
      exact ⟨x, hx, rfl, rfl, rfl, rfl⟩
    · -- some child answers, and it says the same as the child that the name is in
      obtain ⟨n, hn⟩ : ∃ n, t.children.findSome? (narrowestSource (.empty o)) = some n := by
        obtain ⟨n, -, hn, -⟩ := ih c hc (h.child hc) hxc hname hlower hupper
        cases hnone : t.children.findSome? (narrowestSource (.empty o)) with
        | some n => exact ⟨n, rfl⟩
        | none =>
          have := List.findSome?_eq_none_iff.1 hnone c hc
          rw [hn] at this
          cases this
      obtain ⟨a, ha, hna⟩ := List.exists_of_findSome?_eq_some hn
      have hprofile : a.profile = c.profile := by
        rcases h.refined.clear a ha c hc with hsame | hapart
        · exact hsame
        · exfalso
          obtain ⟨hn₁, hn₂⟩ := mem_of_narrowestSource hna
          obtain ⟨hn₃, hn₄⟩ := Span.includes_iff.1 hn₂
          obtain ⟨⟨ha₁, ha₂⟩, -⟩ := (h.child ha).within hn₁
          obtain ⟨⟨hc₁, hc₂⟩, -⟩ := (h.child hc).within hxc
          simp only [Span.empty] at hn₃ hn₄
          rcases hapart with hle | hle <;> omega
      obtain ⟨y, hy, hlabel, hsource, hlength⟩ := exists_of_profile_eq hprofile hxc
      obtain ⟨n', hn', hfound, hl, hs, hg⟩ := ih a ha (h.child ha) hy (by rw [hlabel]; exact hname)
        (by rw [hsource]; exact hlower) (by rw [hsource]; exact hupper)
      obtain rfl : n' = n := Option.some.inj (hfound.symm.trans hna)
      rw [hn]
      exact ⟨n', mem_nodes.2 (.inr ⟨a, ha, hn'⟩), rfl, hl.trans hlabel, hs.trans hsource,
        hg.trans hlength⟩

/-! ## Positions -/

/-- A node whose two spans have one length carries a position as far as it is from the start. -/
theorem toSource_of_even {n : Tree} (h : n.source.length = n.generated.length) (offset : Nat) :
    n.toSource offset = n.source.start + (offset - n.generated.start) := by
  rw [toSource, carry, if_pos h.symm]

theorem toGenerated_of_even {n : Tree} (h : n.source.length = n.generated.length) (offset : Nat) :
    n.toGenerated offset = n.generated.start + (offset - n.source.start) := by
  rw [toGenerated, carry, if_pos h]

end TypedTemplate.Mapping.Tree
