/-
Mappings between a text and code of known lengths. The mapping of a compiled template is one: its nodes
lie in the text and in the code, and so does every position it leads to. It is sound if it has a name at
all, and what stands before the template keeps every name away from the start of the code.
-/
import TypedTemplate.Proofs.Compiled
import TypedTemplate.Proofs.Mapping.Narrowest

namespace TypedTemplate

open TypedTemplate.Span (In)

namespace Mapping.Tree

/-- Below the root, the spans of nodes do not end before they start. -/
theorem Sound.ordered {t n : Tree} (h : t.Sound) (hn : n ∈ t.nodes) :
    n = t ∨ n.source.start ≤ n.source.stop ∧ n.generated.start ≤ n.generated.stop := by
  induction t using children_induction with
  | node t ih =>
    rcases mem_nodes.1 hn with rfl | ⟨c, hc, hn⟩
    · exact .inl rfl
    · rcases ih c hc (h.child hc) hn with rfl | hordered
      · exact .inr ⟨(h.refined.sources n hc).ordered,
          (h.refined.inOrder.inside n.generated (List.mem_map_of_mem hc)).ordered⟩
      · exact .inr hordered

/-- Every node lies in the root as a span. -/
theorem Sound.inside {t n : Tree} (h : t.Sound) (hn : n ∈ t.nodes)
    (hs : t.source.start ≤ t.source.stop) (hg : t.generated.start ≤ t.generated.stop) :
    n.source.In t.source.start t.source.stop ∧
      n.generated.In t.generated.start t.generated.stop := by
  obtain ⟨⟨hs₁, hs₂⟩, hg₁, hg₂⟩ := h.within hn
  rcases h.ordered hn with rfl | ⟨hs', hg'⟩
  · exact ⟨⟨hs₁, hs, hs₂⟩, hg₁, hg, hg₂⟩
  · exact ⟨⟨hs₁, hs', hs₂⟩, hg₁, hg', hg₂⟩

/-- A mapping between a text of `source` bytes and code of `generated` bytes. The root is around all of
the text, except where the text is cut in a character; then the root is empty, and what is below it does
not start with the text. -/
structure Spans (t : Tree) (source generated : Nat) : Prop where
  code : t.generated = ⟨0, generated⟩
  text : t.source = ⟨0, source⟩ ∨
    t.source = ⟨0, 0⟩ ∧ 0 < generated ∧ ∀ c ∈ t.children, 0 < c.source.start
  inside : ∀ n ∈ t.nodes, n.source.In 0 source ∧ n.generated.In 0 generated
  named : ∀ n ∈ t.nodes, n.label.isName = true → t.Sound ∧ 0 < n.generated.start

/-! ## Positions -/

/-- A position in a span is carried into the other span. -/
theorem carry_in {here there : Span} {offset : Nat} (hstart : here.start ≤ offset)
    (hstop : offset ≤ here.stop) (hthere : there.start ≤ there.stop) :
    there.start ≤ carry here there offset ∧ carry here there offset ≤ there.stop := by
  unfold carry
  split
  · rename_i hlength
    simp only [Span.length] at hlength
    omega
  · split <;> omega

namespace Spans

variable {t : Tree} {source generated : Nat}

theorem exists_narrowest (h : t.Spans source generated) {range : Span} (hr : range.stop ≤ generated) :
    ∃ n ∈ t.nodes, t.narrowestGenerated range = some n := by
  have hincludes : t.generated.includes range = true := by
    rw [h.code]
    exact Span.includes_iff.2 ⟨Nat.zero_le _, hr⟩
  obtain ⟨n, hn⟩ := exists_narrowestGenerated hincludes
  exact ⟨n, (mem_of_narrowestGenerated hn).1, hn⟩

theorem toSource_le (h : t.Spans source generated) {offset : Nat} (hle : offset ≤ generated) :
    ((t.narrowestGenerated (.empty offset)).getD t).toSource offset ≤ source := by
  have hempty : (Span.empty offset).stop ≤ generated := hle
  obtain ⟨n, hmem, hn⟩ := h.exists_narrowest hempty
  obtain ⟨hstart, hstop⟩ := Span.includes_iff.1 (mem_of_narrowestGenerated hn).2
  have hin := (h.inside n hmem).1
  rw [hn, Option.getD_some]
  exact (carry_in hstart hstop hin.ordered).2.trans hin.upper

/-- An empty root leads every position of the text to the start of the code. -/
theorem toGenerated_of_cut (hs : t.source = ⟨0, 0⟩) (hg : t.generated = ⟨0, generated⟩)
    (hpos : 0 < generated) (hcs : ∀ c ∈ t.children, 0 < c.source.start) (offset : Nat) :
    ((t.narrowestSource (.empty offset)).getD t).toGenerated offset = 0 := by
  have hnone : t.children.findSome? (narrowestSource (.empty offset)) = none ∨ 0 < offset := by
    rcases Nat.eq_zero_or_pos offset with rfl | hlt
    · refine .inl (List.findSome?_eq_none_iff.2 fun c hc => ?_)
      rw [narrowestSource_eq, if_neg]
      intro hincludes
      exact absurd (Span.includes_iff.1 hincludes).1 (Nat.not_le.2 (hcs c hc))
    · exact .inr hlt
  have hroot : (t.narrowestSource (.empty offset)).getD t = t := by
    rw [narrowestSource_eq]
    split
    · rename_i hincludes
      have hstop := (Span.includes_iff.1 hincludes).2
      rw [hs] at hstop
      rcases hnone with hnone | hlt
      · rw [hnone]
        rfl
      · exact absurd hlt (Nat.not_lt.2 hstop)
    · rfl
  rw [hroot, toGenerated, carry, hs, hg, if_neg (by simp only [Span.length]; omega)]
  simp [Span.isEmpty]

theorem toGenerated_le (h : t.Spans source generated) {offset : Nat} (hle : offset ≤ source) :
    ((t.narrowestSource (.empty offset)).getD t).toGenerated offset ≤ generated := by
  rcases h.text with hs | ⟨hs, hpos, hcs⟩
  · have hincludes : t.source.includes (.empty offset) = true := by
      rw [hs]
      exact Span.includes_iff.2 ⟨Nat.zero_le _, hle⟩
    obtain ⟨n, hn⟩ := exists_narrowestSource hincludes
    obtain ⟨hmem, haround⟩ := mem_of_narrowestSource hn
    obtain ⟨hstart, hstop⟩ := Span.includes_iff.1 haround
    have hin := (h.inside n hmem).2
    rw [hn, Option.getD_some]
    exact (carry_in hstart hstop hin.ordered).2.trans hin.upper
  · rw [toGenerated_of_cut hs h.code hpos hcs]
    exact Nat.zero_le _

end Spans

end Mapping.Tree

/-! ## Compiled templates -/

namespace Compiled

open Mapping

theorem size_header_pos (o : CompileOptions) : 0 < Text.size (header o) := by
  simp only [header, Text.size_append]
  have : 0 < Text.size "(\x7b\x7d as " := by decide
  omega

theorem size_code (embedding : String) (content : Span) (o : CompileOptions) :
    Text.size (ofTemplate embedding content o).code =
      Text.size (header o) + Draft.size (body o ((content.slice embedding).getD "")) +
        Text.size (footer o) := by
  simp [ofTemplate, Draft.size_eq]

theorem body_empty (o : CompileOptions) : body o "" = [] := rfl

/-- The mapping of a template that is cut in a character has nothing below the template. -/
theorem mapping_of_cut {embedding : String} {content : Span} (o : CompileOptions)
    (h : content.slice embedding = none) :
    (ofTemplate embedding content o).mapping =
      .mk .embedding (.ofText embedding) (.ofText (ofTemplate embedding content o).code)
        [.mk .template content (.empty (Text.size (header o))) []] := by
  simp only [ofTemplate, h, Option.getD_none, body_empty]
  rfl

/-- A template maps its embedding, which holds `length` bytes or is cut in a character. -/
theorem spans_mapping {embedding : String} {content : Span} {length : Nat} (o : CompileOptions)
    (hcontent : content.In 0 length)
    (hlength : Text.size embedding = length ∨ embedding = "" ∧ 0 < content.start) :
    (ofTemplate embedding content o).mapping.Spans length
      (Text.size (ofTemplate embedding content o).code) := by
  have hheader := size_header_pos o
  have hcode := size_code embedding content o
  cases h : content.slice embedding with
  | some source =>
    -- an embedding with a template in it is not cut
    have hsize : Text.size embedding = length := by
      refine hlength.resolve_right fun ⟨hempty, hstart⟩ => ?_
      have hle := (Text.size_of_slice h).2
      rw [hempty] at hle
      exact absurd (hcontent.ordered.trans hle) (Nat.not_le.2 hstart)
    have hsound := sound_mapping o h
    refine ⟨rfl, .inl (by rw [← hsize]; rfl), fun n hn => ?_, fun n hn hname => ⟨hsound, ?_⟩⟩
    · rw [← hsize]
      exact hsound.inside hn (Nat.zero_le _) (Nat.zero_le _)
    · rw [mapping_eq o h] at hn
      rcases Tree.mem_nodes.1 hn with rfl | ⟨c, hc, hn⟩
      · cases hname
      · rw [List.mem_singleton.1 hc] at hn
        exact hheader.trans_le ((sound_templateTree o source _ _).within hn).2.1
  | none =>
    rw [mapping_of_cut o h]
    refine ⟨rfl, ?_, fun n hn => ?_, fun n hn hname => ?_⟩
    · rcases hlength with hsize | ⟨hempty, hstart⟩
      · exact .inl (by rw [← hsize]; rfl)
      · refine .inr ⟨by rw [hempty]; rfl, by omega, fun c hc => ?_⟩
        rw [List.mem_singleton.1 hc]
        exact hstart
    · have hembedding : Text.size embedding ≤ length := by
        rcases hlength with hsize | ⟨hempty, -⟩
        · exact hsize.le
        · rw [hempty]
          exact Nat.zero_le _
      rcases Tree.mem_nodes.1 hn with rfl | ⟨c, hc, hn⟩
      · exact ⟨⟨Nat.zero_le _, Nat.zero_le _, hembedding⟩, Nat.zero_le _, Nat.zero_le _, le_rfl⟩
      · rw [List.mem_singleton.1 hc, Tree.nodes_mk, List.flatMap_nil] at hn
        rw [List.mem_singleton.1 hn]
        refine ⟨hcontent, Nat.zero_le _, le_rfl, ?_⟩
        show Text.size (header o) ≤ _
        omega
    · exfalso
      rcases Tree.mem_nodes.1 hn with rfl | ⟨c, hc, hn⟩
      · cases hname
      · rw [List.mem_singleton.1 hc, Tree.nodes_mk, List.flatMap_nil] at hn
        rw [List.mem_singleton.1 hn] at hname
        cases hname

end Compiled

end TypedTemplate
