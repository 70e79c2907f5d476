/-
From drafts to mapping trees: the trees of a draft whose marks fit what they hold and are spaced are
sound.
-/
import TypedTemplate.Proofs.Draft.Spaced
import TypedTemplate.Proofs.Mapping.Sound

namespace TypedTemplate.Draft

open Mapping (Label Tree)
open TypedTemplate.Span (InOrder)

/-! ## Trees -/

/-- The node of a mark whose code starts at `start`. -/
def Mark.tree (m : Mark) (delta start : Nat) : Tree :=
  .mk m.label (m.span.shift delta) ⟨start, start + size m.inside⟩ (trees delta start m.inside)

theorem isEmpty_generated (start n : Nat) : (Span.mk start (start + n)).isEmpty = (n == 0) := by
  rw [Bool.eq_iff_iff]
  simp [Span.isEmpty]

theorem treesOf_mark (delta start : Nat) (label : Label) (span : Span) (keepEmpty : Bool)
    (inside : Draft) :
    treesOf delta start (.mark label span keepEmpty inside) =
      if keepEmpty || size inside != 0 then
        [Mark.tree ⟨label, span, keepEmpty, inside⟩ delta start]
      else [] := by
  simp [treesOf, isEmpty_generated, Mark.tree, bne]

mutual

theorem mem_treesOf {delta : Nat} {t : Tree} : ∀ {p : Piece} {start : Nat},
    t ∈ treesOf delta start p → ∃ m ∈ marksOf p, ∃ place, t = m.tree delta place
  | .mark label span keepEmpty inside, start, h => by
    rw [treesOf_mark] at h
    split at h
    · exact ⟨_, List.mem_singleton.2 rfl, start, List.mem_singleton.1 h⟩
    · cases h
  | .block _ inside, start, h => by
    rw [treesOf] at h
    exact mem_trees h

/-- The trees of a draft are the nodes of its marks. -/
theorem mem_trees {delta : Nat} {t : Tree} : ∀ {d : List Piece} {start : Nat},
    t ∈ trees delta start d → ∃ m ∈ marks d, ∃ place, t = m.tree delta place
  | p :: ps, start, h => by
    rw [trees] at h
    rcases List.mem_append.1 h with h | h
    · obtain ⟨m, hm, ht⟩ := mem_treesOf h
      exact ⟨m, List.mem_append_left _ hm, ht⟩
    · obtain ⟨m, hm, ht⟩ := mem_trees h
      exact ⟨m, List.mem_append_right _ hm, ht⟩

end

mutual

theorem inOrder_treesOf (delta : Nat) : ∀ (p : Piece) (start : Nat),
    InOrder start ((treesOf delta start p).map (·.generated)) (start + lengthOf p)
  | .mark label span keepEmpty inside, start => by
    rw [treesOf_mark, lengthOf]
    split
    · exact ⟨le_rfl, Nat.le_add_right _ _, le_rfl⟩
    · exact Nat.le_add_right _ _
  | .block _ inside, start => inOrder_trees delta inside start
  | .text s, start => Nat.le_add_right _ _
  | .issue _ _, start => Nat.le_refl _
  | .directive _ _ _, start => Nat.le_refl _

theorem inOrder_trees (delta : Nat) : ∀ (d : List Piece) (start : Nat),
    InOrder start ((trees delta start d).map (·.generated)) (start + size d)
  | [], start => Nat.le_refl _
  | p :: ps, start => by
    rw [trees, List.map_append, size, ← Nat.add_assoc]
    exact (inOrder_trees delta ps _).append (inOrder_treesOf delta p start)

end

/-- Nodes with gaps between them, whose names start from `e` on, and which stop before `e'`. -/
structure Stretch (ts : List Tree) (e e' : Nat) : Prop where
  le : e ≤ e'
  start : ∀ t ∈ ts, ∀ n ∈ t.nodes, n.IsNamed → e ≤ n.generated.start
  stop : ∀ t ∈ ts, t.generated.stop < e'
  gaps : ts.Pairwise Tree.Gap

theorem Stretch.nil (e : Nat) : Stretch [] e e := ⟨le_rfl, by simp, by simp, .nil⟩

theorem Stretch.append {as bs : List Tree} {e mid e' : Nat} (ha : Stretch as e mid)
    (hb : Stretch bs mid e') : Stretch (as ++ bs) e e' := by
  refine ⟨ha.le.trans hb.le, fun t ht n hn hnamed => ?_, fun t ht => ?_, ?_⟩
  · rcases List.mem_append.1 ht with ht | ht
    · exact ha.start t ht n hn hnamed
    · exact ha.le.trans (hb.start t ht n hn hnamed)
  · rcases List.mem_append.1 ht with ht | ht
    · exact (ha.stop t ht).trans_le hb.le
    · exact hb.stop t ht
  · refine List.pairwise_append.2 ⟨ha.gaps, hb.gaps, fun a ha' b hb' n hn hnamed => ?_⟩
    exact (ha.stop a ha').trans_le (hb.start b hb' n hn hnamed)

mutual

theorem spaced_treesOf (delta : Nat) : ∀ {p : Piece} {gap : Bool} {start e : Nat},
    SpacedOf gap p → e ≤ start + 1 → (gap = true → e ≤ start) →
      ∃ e', Stretch (treesOf delta start p) e e' ∧ e' ≤ start + lengthOf p + 1 ∧
        (gapOf gap p = true → e' ≤ start + lengthOf p)
  | .text s, gap, start, e, _, he, hgap => by
    refine ⟨e, .nil e, by simp only [lengthOf]; omega, fun h => ?_⟩
    simp only [gapOf, Bool.or_eq_true, bne_iff_ne, ne_eq] at h
    rw [lengthOf]
    rcases h with h | h
    · have := hgap h
      omega
    · have : Text.size s ≠ 0 := by simpa [Text.size] using h
      omega
  | .mark label span keepEmpty inside, gap, start, e, h, he, hgap => by
    obtain ⟨hname, hin⟩ := spacedOf_mark.1 h
    obtain ⟨e₁, hs, -, -⟩ := spaced_trees delta hin he hgap
    rw [treesOf_mark]
    refine ⟨start + size inside + 1, ?_, by simp [lengthOf], by simp [gapOf]⟩
    split
    · refine ⟨by omega, ?_, by simp [Mark.tree, Tree.generated], by simp⟩
      simp only [List.mem_singleton, forall_eq]
      intro n hn hnamed
      rcases Tree.mem_nodes.1 hn with rfl | ⟨c, hc, hn⟩
      · obtain ⟨hlabel, hempty⟩ := hnamed
        rcases hname hlabel with h | h
        · exact hgap h
        · change (Span.mk start (start + size inside)).isEmpty = false at hempty
          rw [isEmpty_generated, h] at hempty
          cases hempty
      · exact hs.start c hc n hn hnamed
    · exact ⟨by omega, by simp, by simp, .nil⟩
  | .block _ inside, gap, start, e, h, he, hgap =>
    spaced_trees delta (spacedOf_block.1 h) he hgap
  | .issue _ _, gap, start, e, _, he, hgap => ⟨e, .nil e, he, hgap⟩
  | .directive _ _ _, gap, start, e, _, he, hgap => ⟨e, .nil e, he, hgap⟩

/-- Spaced marks give nodes with gaps between them. The bound `e` is past the end of the last node
before the draft, and `e'` past the end of the last node of it. -/
theorem spaced_trees (delta : Nat) : ∀ {d : List Piece} {gap : Bool} {start e : Nat},
    Spaced gap d → e ≤ start + 1 → (gap = true → e ≤ start) →
      ∃ e', Stretch (trees delta start d) e e' ∧ e' ≤ start + size d + 1 ∧
        (gapAfter gap d = true → e' ≤ start + size d)
  | [], gap, start, e, _, he, hgap => ⟨e, .nil e, he, hgap⟩
  | p :: ps, gap, start, e, h, he, hgap => by
    obtain ⟨hp, hps⟩ := spaced_cons.1 h
    obtain ⟨e₁, hs₁, he₁, hgap₁⟩ := spaced_treesOf delta hp he hgap
    obtain ⟨e₂, hs₂, he₂, hgap₂⟩ := spaced_trees delta hps he₁ hgap₁
    rw [size, ← Nat.add_assoc]
    exact ⟨e₂, hs₁.append hs₂, he₂, hgap₂⟩

end

theorem Spaced.gaps {d : Draft} (h : Spaced true d) (delta start : Nat) :
    (trees delta start d).Pairwise Tree.Gap := by
  obtain ⟨e, hs, -⟩ := spaced_trees delta h (Nat.zero_le (start + 1)) fun _ => Nat.zero_le _
  exact hs.gaps

/-! ## What does not depend on the place -/

mutual

theorem profile_treesOf (delta : Nat) : ∀ (p : Piece) (a b : Nat),
    (treesOf delta a p).map Tree.profile = (treesOf delta b p).map Tree.profile
  | .mark label span keepEmpty inside, a, b => by
    have hlen (start : Nat) : (Span.mk start (start + size inside)).length = size inside := by
      simp [Span.length]
    have hin := profile_trees delta inside a b
    rw [treesOf_mark, treesOf_mark]
    split
    · simp only [List.map_cons, List.map_nil, Mark.tree, Tree.profile_mk, hlen, List.flatMap_def, hin]
    · rfl
  | .block _ inside, a, b => profile_trees delta inside a b
  | .text _, _, _ => rfl
  | .issue _ _, _, _ => rfl
  | .directive _ _ _, _, _ => rfl

theorem profile_trees (delta : Nat) : ∀ (d : List Piece) (a b : Nat),
    (trees delta a d).map Tree.profile = (trees delta b d).map Tree.profile
  | [], _, _ => rfl
  | p :: ps, a, b => by
    simp only [trees, List.map_append]
    rw [profile_treesOf delta p a b, profile_trees delta ps _ (b + lengthOf p)]

end

/-- A mark says the same wherever its code stands. -/
theorem Mark.profile_tree (m : Mark) (delta a b : Nat) :
    (m.tree delta a).profile = (m.tree delta b).profile := by
  have h := profile_treesOf delta (.mark m.label m.span true m.inside) a b
  simpa [treesOf_mark, Mark.tree] using h

/-! ## Soundness -/

theorem Mark.refined {m : Mark} (hf : m.Fits) (hs : Spaced true m.inside) (delta start : Nat) :
    (m.tree delta start).Refined where
  sources := by
    intro c hc
    obtain ⟨n, hn, place, rfl⟩ := mem_trees hc
    exact (hf.inside n hn).shift delta
  inOrder := inOrder_trees delta m.inside start
  spaced := hs.gaps delta start
  clear := by
    intro a ha b hb
    obtain ⟨m₁, hm₁, place₁, rfl⟩ := mem_trees ha
    obtain ⟨m₂, hm₂, place₂, rfl⟩ := mem_trees hb
    rcases hf.clear m₁ hm₁ m₂ hm₂ with rfl | h
    · exact .inl (m₁.profile_tree delta place₁ place₂)
    · exact .inr (h.imp (Nat.add_le_add_right · delta) (Nat.add_le_add_right · delta))
  leaf := by
    intro hname
    refine List.eq_nil_iff_forall_not_mem.2 fun c hc => ?_
    obtain ⟨n, hn, -⟩ := mem_trees hc
    rw [hf.leaf hname] at hn
    cases hn

mutual

theorem sound_treesOf (delta : Nat) : ∀ (p : Piece) (start : Nat),
    (∀ m ∈ allMarksOf p, m.Fits ∧ Spaced true m.inside) → ∀ t ∈ treesOf delta start p, t.Sound
  | .mark label span keepEmpty inside, start, h, t, ht => by
    rw [treesOf_mark] at ht
    split at ht
    · obtain rfl := List.mem_singleton.1 ht
      have hm := h _ List.mem_cons_self
      have hinside := sound_trees delta inside start fun m hm => h m (List.mem_cons_of_mem _ hm)
      exact Tree.sound_mk.2 ⟨Mark.refined hm.1 hm.2 delta start, hinside⟩
    · cases ht
  | .block _ inside, start, h, t, ht => sound_trees delta inside start h t ht

theorem sound_trees (delta : Nat) : ∀ (d : List Piece) (start : Nat),
    (∀ m ∈ allMarks d, m.Fits ∧ Spaced true m.inside) → ∀ t ∈ trees delta start d, t.Sound
  | p :: ps, start, h, t, ht => by
    rcases List.mem_append.1 ht with ht | ht
    · exact sound_treesOf delta p start (fun m hm => h m (List.mem_append_left _ hm)) t ht
    · exact sound_trees delta ps _ (fun m hm => h m (List.mem_append_right _ hm)) t ht

end

end TypedTemplate.Draft
