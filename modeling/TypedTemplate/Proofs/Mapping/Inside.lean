/-
Where code inside a node leads. A search for a span that reaches into the code of a node comes down to the
node. So what is found for a stretch of the code of a node, its ends one by one or the node around it, does
not leave the source of the node, if the parts of the node keep away from its ends. At the start of a node
an earlier sibling may answer; then its source has to come first too.
-/
import TypedTemplate.Proofs.Mapping.Spans

namespace TypedTemplate

open TypedTemplate.Span (In InOrder)

/-- Spans meet if each starts before the end of the other. -/
theorem Span.intersects_of_lt {s r : Span} (hstart : r.start < s.stop) (hstop : s.start < r.stop) :
    s.intersects r = true := by
  unfold intersects
  split
  · rename_i hr
    have heq : r.start = r.stop := by simpa [isEmpty] using hr
    simp only [contains, Bool.and_eq_true, decide_eq_true_eq]
    omega
  · split
    · rename_i hs
      have heq : s.start = s.stop := by simpa [isEmpty] using hs
      simp only [contains, Bool.and_eq_true, decide_eq_true_eq]
      omega
    · simp only [Bool.and_eq_true, decide_eq_true_eq]
      exact ⟨hstart, hstop⟩

namespace Mapping.Tree

/-! ## Searches as searches among children -/

theorem narrowestGenerated_of_not_includes {range : Span} {t : Tree}
    (h : ¬ t.generated.includes range = true) : t.narrowestGenerated range = none := by
  obtain ⟨l, s, g, cs⟩ := t
  rw [generated] at h
  rw [narrowestGenerated, if_neg h]

theorem narrowestGeneratedAmong_eq {range : Span} {hi : Nat} : ∀ {cs : List Tree} {lo : Nat},
    InOrder lo (cs.map (·.generated)) hi →
      narrowestGeneratedAmong range 0 cs = cs.findSome? (narrowestGenerated range)
  | [], _, _ => rfl
  | c :: cs, lo, h => by
    rw [narrowestGeneratedAmong]
    by_cases hlate : range.start < c.generated.start
    · rw [if_pos hlate]
      -- neither this child nor a later one is around the span
      refine (List.findSome?_eq_none_iff.2 fun d hd => ?_).symm
      refine narrowestGenerated_of_not_includes fun hincludes => ?_
      have hstart : c.generated.start ≤ d.generated.start := by
        rcases List.mem_cons.1 hd with rfl | hd
        · exact le_rfl
        · exact h.2.1.trans (h.2.2.inside d.generated (List.mem_map_of_mem hd)).lower
      have := (Span.includes_iff.1 hincludes).1
      omega
    · rw [if_neg hlate, List.findSome?_cons, narrowestGeneratedAmong_eq h.2.2]
      cases narrowestGenerated range c <;> rfl

/-- A search takes the first answer of the children. -/
theorem narrowestGenerated_eq {t : Tree}
    (h : InOrder t.generated.start (t.children.map (·.generated)) t.generated.stop) {range : Span}
    (hrange : range.start ≤ range.stop) :
    t.narrowestGenerated range =
      if t.generated.includes range then
        some ((t.children.findSome? (narrowestGenerated range)).getD t)
      else none := by
  obtain ⟨l, s, g, cs⟩ := t
  have horder : InOrder g.start (cs.map (·.generated)) g.stop := h
  obtain ⟨before, after, rfl, hbefore, hafter⟩ := horder.exists_cut range.start
  -- those that halving passes over are not around the span
  have hnone : before.findSome? (narrowestGenerated range) = none := by
    refine List.findSome?_eq_none_iff.2 fun b hb => ?_
    refine narrowestGenerated_of_not_includes fun hincludes => ?_
    have hlt := hbefore b hb
    have hstop := (Span.includes_iff.1 hincludes).2
    omega
  have hskip := partitionPoint_append (p := fun c : Tree => decide (c.generated.stop < range.start))
    (fun b hb => decide_eq_true (hbefore b hb))
    (fun a ha => decide_eq_false (Nat.not_lt.2 (hafter a ha)))
  rw [List.map_append] at horder
  obtain ⟨mid, -, hrest⟩ := horder.split
  rw [narrowestGenerated, generated, children]
  dsimp only
  rw [hskip, narrowestGeneratedAmong_append, narrowestGeneratedAmong_eq hrest,
    List.findSome?_append, hnone, Option.none_or]
  cases after.findSome? (narrowestGenerated range) <;> rfl

/-! ## Coming down to a node -/

/-- A search for a span that reaches into the code of a node comes down to the node. -/
theorem narrowestGenerated_of_mem {t n : Tree} (h : t.Sound) (hn : n ∈ t.nodes) {range : Span}
    (hin : range.In n.generated.start n.generated.stop) (hinto : n.generated.start < range.stop) :
    t.narrowestGenerated range = n.narrowestGenerated range := by
  induction t using children_induction with
  | node t ih =>
    rcases mem_nodes.1 hn with rfl | ⟨c, hc, hnc⟩
    · rfl
    · obtain ⟨before, after, hcs⟩ := List.append_of_mem hc
      obtain ⟨-, hlower, hupper⟩ := h.within hn
      obtain ⟨-, hclower, -⟩ := (h.child hc).within hnc
      have hincludes : t.generated.includes range = true :=
        Span.includes_iff.2 ⟨hlower.trans hin.lower, hin.upper.trans hupper⟩
      obtain ⟨found, hfound⟩ := exists_narrowestGenerated (Span.includes_iff.2 ⟨hin.lower, hin.upper⟩)
      have hnone : before.findSome? (narrowestGenerated range) = none := by
        refine List.findSome?_eq_none_iff.2 fun b hb => ?_
        refine narrowestGenerated_of_not_includes fun hb' => ?_
        have hp := List.pairwise_map.1 h.refined.inOrder.pairwise
        rw [hcs] at hp
        have hle := (List.pairwise_append.1 hp).2.2 b hb c List.mem_cons_self
        have hstop := (Span.includes_iff.1 hb').2
        omega
      rw [narrowestGenerated_eq h.refined.inOrder hin.ordered, if_pos hincludes, hcs, List.findSome?_append, hnone,
        Option.none_or, List.findSome?_cons, ih c hc (h.child hc) hnc, hfound]
      rfl

theorem sizeOf_le_of_mem {t n : Tree} (h : n ∈ t.nodes) : sizeOf n ≤ sizeOf t := by
  induction t using children_induction with
  | node t ih =>
    rcases mem_nodes.1 h with rfl | ⟨c, hc, hn⟩
    · exact le_rfl
    · exact (ih c hc hn).trans (sizeOf_child hc).le

/-- If a search for a position ends at the node it starts from, so does one for a span around it. -/
theorem eq_of_narrowestGenerated_self {n found : Tree} (h : n.Refined) {range : Span} {offset : Nat}
    (hstart : range.start ≤ offset) (hstop : offset ≤ range.stop)
    (hself : n.narrowestGenerated (.empty offset) = some n)
    (hfound : n.narrowestGenerated range = some found) : found = n := by
  have hchild : n.children.findSome? (narrowestGenerated (.empty offset)) = none := by
    rw [narrowestGenerated_eq h.inOrder (Nat.le_refl offset)] at hself
    split at hself
    · cases hany : n.children.findSome? (narrowestGenerated (.empty offset)) with
      | none => rfl
      | some x =>
        rw [hany] at hself
        obtain rfl : x = n := Option.some.inj hself
        obtain ⟨c, hc, hx⟩ := List.exists_of_findSome?_eq_some hany
        have := sizeOf_le_of_mem (mem_of_narrowestGenerated hx).1
        have := sizeOf_child hc
        omega
    · cases hself
  -- no child is around the position, so none is around the span
  have hnone : n.children.findSome? (narrowestGenerated range) = none := by
    refine List.findSome?_eq_none_iff.2 fun c hc => ?_
    refine narrowestGenerated_of_not_includes fun hincludes => ?_
    obtain ⟨hlower, hupper⟩ := Span.includes_iff.1 hincludes
    have hat : c.generated.includes (.empty offset) = true :=
      Span.includes_iff.2 ⟨hlower.trans hstart, hstop.trans hupper⟩
    obtain ⟨x, hx⟩ := exists_narrowestGenerated hat
    rw [List.findSome?_eq_none_iff.1 hchild c hc] at hx
    cases hx
  rw [narrowestGenerated_eq h.inOrder (hstart.trans hstop), hnone] at hfound
  split at hfound
  · exact (Option.some.inj hfound).symm
  · cases hfound

/-! ## Nodes with what comes before them -/

theorem mem_nodes_trans {t n m : Tree} (hn : n ∈ t.nodes) (hm : m ∈ n.nodes) : m ∈ t.nodes := by
  induction t using children_induction with
  | node t ih =>
    rcases mem_nodes.1 hn with rfl | ⟨c, hc, hn⟩
    · exact hm
    · exact mem_nodes.2 (.inr ⟨c, hc, ih c hc hn⟩)

theorem mem_nodes_child {t n c : Tree} (hn : n ∈ t.nodes) (hc : c ∈ n.children) : c ∈ t.nodes :=
  mem_nodes_trans hn (mem_nodes.2 (.inr ⟨c, hc, self_mem_nodes c⟩))

/-- A node whose code starts after that of its parent, and whose earlier siblings stand for what comes
before it. -/
def Fronted (t n : Tree) : Prop :=
  ∃ p ∈ t.nodes, ∃ before after, p.children = before ++ n :: after ∧
    p.generated.start < n.generated.start ∧ ∀ b ∈ before, b.source.stop ≤ n.source.start

theorem Fronted.mem {t n : Tree} (hn : t.Fronted n) : n ∈ t.nodes := by
  obtain ⟨p, hp, before, after, hcs, -⟩ := hn
  exact mem_nodes_child hp (by simp [hcs])

theorem Fronted.start_pos {t n : Tree} (hn : t.Fronted n) : 0 < n.generated.start := by
  obtain ⟨p, -, -, -, -, hstart, -⟩ := hn
  omega

/-- At its start a node answers itself, or something that comes before it does. -/
theorem Fronted.start {t n found : Tree} (h : t.Sound) (hn : t.Fronted n)
    (hfound : t.narrowestGenerated (.empty n.generated.start) = some found) :
    n.narrowestGenerated (.empty n.generated.start) = some found ∨
      found.source.stop ≤ n.source.start := by
  obtain ⟨p, hp, before, after, hcs, hstart, hbefore⟩ := hn
  have hrefined : p.Refined := h p hp
  have hchild : n ∈ p.children := by simp [hcs]
  have hin := hrefined.inOrder.inside n.generated (List.mem_map_of_mem hchild)
  have hat : (Span.empty n.generated.start).In p.generated.start p.generated.stop :=
    ⟨hin.lower, le_rfl, hin.ordered.trans hin.upper⟩
  have hself : n.generated.includes (.empty n.generated.start) = true :=
    Span.includes_iff.2 ⟨le_rfl, hin.ordered⟩
  rw [narrowestGenerated_of_mem h hp hat hstart, narrowestGenerated_eq hrefined.inOrder le_rfl,
    if_pos hat.includes, hcs, List.findSome?_append] at hfound
  cases hany : before.findSome? (narrowestGenerated (.empty n.generated.start)) with
  | some x =>
    rw [hany] at hfound
    obtain rfl : x = found := Option.some.inj hfound
    obtain ⟨b, hb, hx⟩ := List.exists_of_findSome?_eq_some hany
    have hsound : b.Sound := fun y hy =>
      h y (mem_nodes_trans (mem_nodes_child hp (by simp [hcs, hb])) hy)
    obtain ⟨⟨-, hsource⟩, -⟩ := hsound.within (mem_of_narrowestGenerated hx).1
    exact .inr (hsource.trans (hbefore b hb))
  | none =>
    obtain ⟨y, hy⟩ := exists_narrowestGenerated hself
    rw [hany, Option.none_or, List.findSome?_cons, hy] at hfound
    obtain rfl : y = found := Option.some.inj hfound
    exact .inl hy

/-! ## Stretches of the code of a node -/

/-- A node whose parts keep away from its ends. -/
def Inset (n : Tree) : Prop := ∀ c ∈ n.children, c.source.In (n.source.start + 1) (n.source.stop - 1)

/-- What is in an inset node is the node or keeps away from its ends. -/
theorem Inset.of_mem {n x : Tree} (hinset : n.Inset) (h : n.Sound) (hx : x ∈ n.nodes) :
    x = n ∨ x.source.In (n.source.start + 1) (n.source.stop - 1) := by
  rcases mem_nodes.1 hx with rfl | ⟨c, hc, hxc⟩
  · exact .inl rfl
  · have hin := hinset c hc
    obtain ⟨hsource, -⟩ := (h.child hc).inside hxc hin.ordered
      (h.refined.inOrder.inside c.generated (List.mem_map_of_mem hc)).ordered
    exact .inr (hsource.mono hin.lower hin.upper)

/-- What is found for a position carries it into its own source. -/
theorem toSource_in {t found : Tree} {offset : Nat}
    (hfound : t.narrowestGenerated (.empty offset) = some found)
    (hordered : found.source.start ≤ found.source.stop) :
    found.source.start ≤ found.toSource offset ∧ found.toSource offset ≤ found.source.stop := by
  obtain ⟨hlower, hupper⟩ := Span.includes_iff.1 (mem_of_narrowestGenerated hfound).2
  exact carry_in hlower hupper hordered

/-- Where a position in the code of an inset node leads: inside the source of the node, or as far from its
start if the node is the one around the stretch. -/
theorem Inset.toSource {n around found : Tree} (hinset : n.Inset) (h : n.Sound) {range : Span}
    {offset : Nat} (hstart : range.start ≤ offset) (hstop : offset ≤ range.stop)
    (haround : n.narrowestGenerated range = some around)
    (heven : around.source.length = around.generated.length)
    (hfound : n.narrowestGenerated (.empty offset) = some found) :
    (n.source.start < found.toSource offset ∧ found.toSource offset < n.source.stop) ∨
      n.source.length = n.generated.length ∧
        found.toSource offset = n.source.start + (offset - n.generated.start) := by
  rcases hinset.of_mem h (mem_of_narrowestGenerated hfound).1 with rfl | hin
  · obtain rfl := eq_of_narrowestGenerated_self h.refined hstart hstop hfound haround
    exact .inr ⟨heven, toSource_of_even heven offset⟩
  · obtain ⟨hcarry₁, hcarry₂⟩ := toSource_in hfound hin.ordered
    have := hin.lower
    have := hin.ordered
    have := hin.upper
    exact .inl ⟨by omega, by omega⟩

/-- A stretch of code leads to a span that meets the source of a node: by the node around the stretch, or
by its two ends if that node is as long as its code. -/
def Meets (t n : Tree) (range : Span) : Prop :=
  ∃ around first last, t.narrowestGenerated range = some around ∧
    t.narrowestGenerated (.empty range.start) = some first ∧
    t.narrowestGenerated (.empty range.stop) = some last ∧
    (around.source.start < n.source.stop ∧ n.source.start < around.source.stop) ∧
      (around.source.length = around.generated.length →
        first.toSource range.start < n.source.stop ∧ n.source.start < last.toSource range.stop)

/-- Every stretch of the code of an inset node meets the source of the node. -/
theorem Fronted.meets {t n : Tree} (h : t.Sound) (hn : t.Fronted n) (hinset : n.Inset)
    (hsource : n.source.start < n.source.stop) {range : Span} (hlt : range.start < range.stop)
    (hin : range.In n.generated.start n.generated.stop) : t.Meets n range := by
  have hmem := hn.mem
  have hsound : n.Sound := fun x hx => h x (mem_nodes_trans hmem hx)
  have hlower := hin.lower
  have hupper := hin.upper
  have hinto : n.generated.start < range.stop := hlower.trans_lt hlt
  -- the stretch and its end come down to the node
  obtain ⟨around, haround⟩ := exists_narrowestGenerated hin.includes
  have hend : (Span.empty range.stop).In n.generated.start n.generated.stop :=
    ⟨hinto.le, le_rfl, hupper⟩
  obtain ⟨last, hlast⟩ := exists_narrowestGenerated hend.includes
  -- so does its start, unless something before the node answers
  have hbegin : (Span.empty range.start).In n.generated.start n.generated.stop :=
    ⟨hlower, le_rfl, hlt.le.trans hupper⟩
  obtain ⟨-, hroot₁, hroot₂⟩ := h.within hmem
  obtain ⟨first, hfirst⟩ := exists_narrowestGenerated (hbegin.mono hroot₁ hroot₂).includes
  have hbefore : n.narrowestGenerated (.empty range.start) = some first ∨
      first.source.stop ≤ n.source.start := by
    rcases Nat.eq_or_lt_of_le hlower with heq | hlate
    · rw [← heq] at hfirst ⊢
      exact hn.start h hfirst
    · rw [narrowestGenerated_of_mem h hmem hbegin hlate] at hfirst
      exact .inl hfirst
  refine ⟨around, first, last, ?_, hfirst, ?_, ?_, fun heven => ⟨?_, ?_⟩⟩
  · rw [narrowestGenerated_of_mem h hmem hin hinto, haround]
  · rw [narrowestGenerated_of_mem h hmem hend hinto, hlast]
  · rcases hinset.of_mem hsound (mem_of_narrowestGenerated haround).1 with rfl | hin
    · exact ⟨hsource, hsource⟩
    · have := hin.lower
      have := hin.ordered
      have := hin.upper
      omega
  · rcases hbefore with hself | hle
    · rcases hinset.toSource hsound le_rfl hlt.le haround heven hself with hinside | ⟨hlength, heq⟩
      · exact hinside.2
      · simp only [Span.length] at hlength
        omega
    · rcases h.ordered (mem_of_narrowestGenerated hfirst).1 with rfl | ⟨hordered, -⟩
      · have := (h.within hmem).1.2
        omega
      · have := (toSource_in hfirst hordered).2
        omega
  · rcases hinset.toSource hsound hlt.le le_rfl haround heven hlast with hinside | ⟨-, heq⟩
    · exact hinside.1
    · omega

end Mapping.Tree

end TypedTemplate
