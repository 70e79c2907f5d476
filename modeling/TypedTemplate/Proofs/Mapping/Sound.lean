/-
What is asked of a mapping tree, node by node. A node is sound if its children refine it: their
sources lie in its source, their generated spans lie in its generated span one after another, code
stands between a child and the next name, two children whose sources overlap say the same twice, and
a name has no children. Where the code of children lies in that of their parents, the positions of a tree
fit if those of its root do.
-/
import TypedTemplate.Mapping.Tree
import TypedTemplate.Proofs.Span

namespace TypedTemplate.Mapping.Tree

open TypedTemplate.Span (InOrder Apart)

/-! ## The nodes of a tree -/

/-- Every node of a tree, parents first. -/
def nodes (t : Tree) : List Tree := (t.walk none).map (·.1)

mutual

theorem map_walk (parent : Option Tree) : ∀ t : Tree, (walk parent t).map (·.1) = t.nodes
  | mk l s g cs => by simp [nodes, walk]

theorem map_walkAll (parent : Tree) : ∀ cs : List Tree,
    (walkAll parent cs).map (·.1) = cs.flatMap nodes
  | [] => rfl
  | c :: cs => by simp [walkAll, map_walk (some parent) c, map_walkAll parent cs]

end

theorem nodes_mk (l : Label) (s g : Span) (cs : List Tree) :
    (mk l s g cs).nodes = mk l s g cs :: cs.flatMap nodes := by
  simp [nodes, walk, map_walkAll]

theorem mem_nodes {n t : Tree} : n ∈ t.nodes ↔ n = t ∨ ∃ c ∈ t.children, n ∈ c.nodes := by
  obtain ⟨l, s, g, cs⟩ := t
  simp [nodes_mk, children]

theorem self_mem_nodes (t : Tree) : t ∈ t.nodes := mem_nodes.2 (.inl rfl)

mutual

/-- A node below another is a child of its parent, which is a node too. -/
theorem mem_walk {n p : Tree} {parent : Option Tree} : ∀ {t : Tree}, (n, some p) ∈ t.walk parent →
    (n = t ∧ parent = some p) ∨ p ∈ t.nodes ∧ n ∈ p.children
  | mk l s g cs, h => by
    rw [walk] at h
    rcases List.mem_cons.1 h with h | h
    · obtain ⟨rfl, rfl⟩ := Prod.mk.inj h
      exact .inl ⟨rfl, rfl⟩
    · rcases mem_walkAll h with ⟨rfl, hn⟩ | ⟨c, hc, hp, hn⟩
      · exact .inr ⟨self_mem_nodes _, hn⟩
      · exact .inr ⟨mem_nodes.2 (.inr ⟨c, hc, hp⟩), hn⟩

theorem mem_walkAll {n p parent : Tree} : ∀ {cs : List Tree}, (n, some p) ∈ walkAll parent cs →
    (p = parent ∧ n ∈ cs) ∨ ∃ c ∈ cs, p ∈ c.nodes ∧ n ∈ p.children
  | c :: cs, h => by
    rw [walkAll] at h
    rcases List.mem_append.1 h with h | h
    · rcases mem_walk h with ⟨rfl, hp⟩ | hp
      · exact .inl ⟨(Option.some.inj hp).symm, List.mem_cons_self⟩
      · exact .inr ⟨c, List.mem_cons_self, hp⟩
    · rcases mem_walkAll h with ⟨hp, hn⟩ | ⟨c', hc, hp⟩
      · exact .inl ⟨hp, List.mem_cons_of_mem _ hn⟩
      · exact .inr ⟨c', List.mem_cons_of_mem _ hc, hp⟩

end

theorem sizeOf_child {t c : Tree} (hc : c ∈ t.children) : sizeOf c < sizeOf t := by
  obtain ⟨l, s, g, cs⟩ := t
  have := List.sizeOf_lt_of_mem (show c ∈ cs from hc)
  rw [mk.sizeOf_spec]
  omega

/-- Induction from the children of a node to the node. -/
@[elab_as_elim]
theorem children_induction {motive : Tree → Prop}
    (node : ∀ t : Tree, (∀ c ∈ t.children, motive c) → motive t) (t : Tree) : motive t :=
  node t fun c hc =>
    have := sizeOf_child hc
    children_induction node c
termination_by sizeOf t

/-! ## Code in order -/

/-- The code of the children of a node lies in that of the node, one child after another, throughout the
tree. A child may be without code. -/
def Sequenced (t : Tree) : Prop :=
  ∀ n ∈ t.nodes, InOrder n.generated.start (n.children.map (·.generated)) n.generated.stop

theorem sequenced_iff {t : Tree} :
    t.Sequenced ↔ InOrder t.generated.start (t.children.map (·.generated)) t.generated.stop ∧
      ∀ c ∈ t.children, c.Sequenced := by
  constructor
  · intro h
    exact ⟨h t (self_mem_nodes t), fun c hc n hn => h n (mem_nodes.2 (.inr ⟨c, hc, hn⟩))⟩
  · rintro ⟨horder, hall⟩ n hn
    rcases mem_nodes.1 hn with rfl | ⟨c, hc, hn⟩
    · exact horder
    · exact hall c hc n hn

/-! ## Positions -/

mutual

/-- A tree with the spans of its code as positions. -/
def kept : Tree → Tree
  | mk label source generated children => mk label source generated.kept (keptAll children)

def keptAll : List Tree → List Tree
  | [] => []
  | t :: ts => kept t :: keptAll ts

end

theorem keptAll_concat (ts : List Tree) (t : Tree) : keptAll (ts ++ [t]) = keptAll ts ++ [t.kept] := by
  induction ts with
  | nil => rfl
  | cons u ts ih => rw [List.cons_append, keptAll, ih, keptAll, List.cons_append]

theorem keptAll_of_kept {ts : List Tree} (h : ∀ t ∈ ts, t.kept = t) : keptAll ts = ts := by
  induction ts with
  | nil => rfl
  | cons t ts ih =>
    rw [keptAll, h t List.mem_cons_self, ih fun u hu => h u (List.mem_cons_of_mem t hu)]

/-- A tree whose nodes lie in their parents fits if its root does. -/
theorem Sequenced.kept {t : Tree} (h : t.Sequenced) (hstop : t.generated.stop ≤ maxPosition) : t.kept = t := by
  induction t using children_induction with
  | node t ih =>
    obtain ⟨horder, hchildren⟩ := sequenced_iff.1 h
    obtain ⟨label, source, generated, children⟩ := t
    have hall : keptAll children = children := keptAll_of_kept fun c hc =>
      ih c hc (hchildren c hc) ((horder.inside c.generated (List.mem_map_of_mem hc)).upper.trans hstop)
    have hgenerated : generated.kept = generated := Span.In.kept ⟨le_rfl, horder.le, le_rfl⟩ hstop
    rw [Tree.kept, hall, hgenerated]

/-! ## Soundness -/

/-- What the nodes of a tree say, without where their code stands. -/
def profile (t : Tree) : List (Label × Span × Nat) :=
  t.nodes.map fun n => (n.label, n.source, n.generated.length)

theorem profile_mk (l : Label) (s g : Span) (cs : List Tree) :
    (mk l s g cs).profile = (l, s, g.length) :: cs.flatMap profile := by
  simp only [profile, nodes_mk, List.map_cons, List.map_flatMap]
  rfl

/-- A name that has code. -/
def IsNamed (t : Tree) : Prop := t.label.isName = true ∧ t.generated.isEmpty = false

/-- Code stands between the end of a node and every name in a later one. -/
def Gap (a b : Tree) : Prop := ∀ n ∈ b.nodes, n.IsNamed → a.generated.stop < n.generated.start

/-- A node whose children refine it. -/
structure Refined (t : Tree) : Prop where
  sources : ∀ c ∈ t.children, c.source.In t.source.start t.source.stop
  inOrder : InOrder t.generated.start (t.children.map (·.generated)) t.generated.stop
  spaced : t.children.Pairwise Gap
  clear : ∀ a ∈ t.children, ∀ b ∈ t.children, a.profile = b.profile ∨ Apart a.source b.source
  leaf : t.label.isName = true → t.children = []

/-- All nodes are refined by their children. -/
def Sound (t : Tree) : Prop := ∀ n ∈ t.nodes, n.Refined

theorem sound_mk {l : Label} {s g : Span} {cs : List Tree} :
    (mk l s g cs).Sound ↔ (mk l s g cs).Refined ∧ ∀ c ∈ cs, c.Sound := by
  simp only [Sound, nodes_mk, List.mem_cons, List.mem_flatMap]
  constructor
  · intro h
    exact ⟨h _ (.inl rfl), fun c hc n hn => h n (.inr ⟨c, hc, hn⟩)⟩
  · rintro ⟨h, hall⟩ n (rfl | ⟨c, hc, hn⟩)
    · exact h
    · exact hall c hc n hn

theorem Sound.child {t c : Tree} (h : t.Sound) (hc : c ∈ t.children) : c.Sound :=
  fun n hn => h n (mem_nodes.2 (.inr ⟨c, hc, hn⟩))

theorem Sound.refined {t : Tree} (h : t.Sound) : t.Refined := h t (self_mem_nodes t)

theorem Sound.sequenced {t : Tree} (h : t.Sound) : t.Sequenced := fun n hn => (h n hn).inOrder

end TypedTemplate.Mapping.Tree
