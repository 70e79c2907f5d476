/-
The mapping of a compiled template is sound: what the reader found is placed, so the marks of the code
written for it are placed and spaced, so its trees are sound. Compiling step by step ends without a
fault, and the tree it gives is properly nested.
-/
import TypedTemplate.Proofs.Draft.Trees
import TypedTemplate.Proofs.Emit.Formed
import TypedTemplate.Proofs.Emit.Statement
import TypedTemplate.Proofs.Emitter.Template
import TypedTemplate.Proofs.Template.Reader.Statement
import TypedTemplate.Proofs.Text.Slice

namespace TypedTemplate

open Draft Mapping
open TypedTemplate.Span (InOrder)

namespace Compiled

variable (o : CompileOptions) (source : String)

/-- What the marks of a template's code stand for lies in the template. -/
theorem placed_body : ∃ cells, Placed cells (marks (body o source)) ∧ ∀ s ∈ cells, s.In 0 (Text.size source) := by
  unfold body
  split
  · rename_i t h
    obtain ⟨ho, hp⟩ := Template.parse_placed h
    exact ⟨_, Emit.placed_statements _ 1 hp ho.scattered, ho.inside⟩
  · exact ⟨[], .nil _, by simp⟩

theorem spaced_body : Spaced false (body o source) := by
  unfold body
  split
  · rename_i t h
    exact (Emit.formed_statements _ 1 (Template.parse_neat h)).spaced
  · simp

/-- The template as a mark around its code. -/
def templateMark (o : CompileOptions) (source : String) : Mark :=
  ⟨.template, ⟨0, Text.size source⟩, true, body o source⟩

theorem fits_templateMark : (templateMark o source).Fits ∧ ∀ m ∈ allMarks (body o source), m.Fits := by
  obtain ⟨cells, hp, hin⟩ := placed_body o source
  have hmark : Placed [⟨0, Text.size source⟩] [templateMark o source] :=
    hp.mark hin (Nat.zero_le _) (by simp [Label.isName]) true
  exact hmark.fits _ (List.mem_singleton.2 rfl)

/-- The trees of the template at `delta` whose code starts at `start`. -/
theorem sound_templateTree (delta start : Nat) : ((templateMark o source).tree delta start).Sound := by
  obtain ⟨hfits, hall⟩ := fits_templateMark o source
  have hspaced := spaced_body o source
  refine Tree.sound_mk.2 ⟨Mark.refined hfits hspaced.after delta start, ?_⟩
  exact sound_trees delta _ start fun m hm => ⟨hall m hm, spaced_inside hspaced hm⟩

/-- The only child of the mapping of a compiled template. -/
theorem mapping_eq {embedding source : String} {content : Span} (h : content.slice embedding = some source) :
    (ofTemplate embedding content o).mapping =
      .mk .embedding (.ofText embedding) (.ofText (ofTemplate embedding content o).code)
        [(templateMark o source).tree content.start (Text.size (header o))] := by
  have hstop : content = ⟨content.start, content.start + Text.size source⟩ := by
    rw [← (Text.size_of_slice h).1]
  simp only [ofTemplate, h, Option.getD_some, templateMark, Mark.tree, Span.shift, Nat.zero_add]
  rw [Nat.add_comm (Text.size source), ← hstop]

theorem sound_mapping {embedding source : String} {content : Span} (h : content.slice embedding = some source) :
    (ofTemplate embedding content o).mapping.Sound := by
  have htree := sound_templateTree o source content.start (Text.size (header o))
  obtain ⟨hstop, hle⟩ := Text.size_of_slice h
  have hcode : Text.size (ofTemplate embedding content o).code =
      Text.size (header o) + Draft.size (body o source) + Text.size (footer o) := by
    simp [ofTemplate, h, Draft.size_eq]
  rw [mapping_eq o h]
  refine Tree.sound_mk.2 ⟨⟨?_, ?_, ?_, ?_, ?_⟩, ?_⟩
  · simp only [Tree.children, List.mem_singleton, forall_eq]
    refine ⟨Nat.zero_le _, ?_, ?_⟩ <;>
      simp only [templateMark, Mark.tree, Tree.source, Span.shift, Span.ofText] <;> omega
  · refine ⟨Nat.zero_le _, Nat.le_add_right _ _, ?_⟩
    simp only [templateMark, Mark.tree, Tree.generated, Span.ofText, hcode]
    exact Nat.le_add_right _ _
  · exact List.pairwise_singleton _ _
  · simp [Tree.children]
  · simp [Tree.label, Label.isName]
  · simpa using htree

/-- Compiling a template step by step, where frames, blocks and indentation are opened and closed by hand, ends
without a fault and with the compiled template. The mapping covers the whole embedding and the whole code; every node
lies in its parent on both sides, and siblings follow one another in the code. If the code fits, so do all
positions in it. -/
theorem emission_properly_nested {embedding source : String} {content : Span} (o : CompileOptions)
    (h : content.slice embedding = some source) :
    Emitter.compile embedding content o = .ok (ofTemplate embedding content o) ∧
      (ofTemplate embedding content o).mapping.label = .embedding ∧
      (ofTemplate embedding content o).mapping.source = ⟨0, Text.size embedding⟩ ∧
      (ofTemplate embedding content o).mapping.generated =
        ⟨0, Text.size (ofTemplate embedding content o).code⟩ ∧
      (∀ node parent, (node, some parent) ∈ (ofTemplate embedding content o).mapping.walk none →
        parent.source.includes node.source = true ∧
          parent.generated.includes node.generated = true) ∧
      (∀ node parent?, (node, parent?) ∈ (ofTemplate embedding content o).mapping.walk none →
        node.children.Pairwise fun a b => a.generated.stop ≤ b.generated.start) ∧
      (Text.size (ofTemplate embedding content o).code ≤ maxPosition →
        (ofTemplate embedding content o).mapping.kept = (ofTemplate embedding content o).mapping) := by
  have hsound := sound_mapping o h
  refine ⟨Emitter.compile_eq embedding content o, rfl, rfl, rfl, ?_, ?_, hsound.sequenced.kept⟩
  · intro node parent hmem
    rcases Tree.mem_walk hmem with ⟨-, hnone⟩ | ⟨hparent, hchild⟩
    · cases hnone
    · have hrefined := hsound parent hparent
      have hgenerated := hrefined.inOrder.inside node.generated (List.mem_map_of_mem hchild)
      exact ⟨(hrefined.sources node hchild).includes, hgenerated.includes⟩
  · intro node parent? hmem
    have hnode : node ∈ (ofTemplate embedding content o).mapping.nodes :=
      List.mem_map.2 ⟨(node, parent?), hmem, rfl⟩
    exact List.pairwise_map.1 (hsound node hnode).inOrder.pairwise

theorem emission_properly_nested_mustache :
    (⟨10, 24⟩ : Span).slice "<template>\x7b\x7b@name.size\x7d\x7d</template>" =
        some "\x7b\x7b@name.size\x7d\x7d" ∧
      ∀ node parent, (node, some parent) ∈
        (ofTemplate "<template>\x7b\x7b@name.size\x7d\x7d</template>" ⟨10, 24⟩
          { file := "a.gts", typesModule := "types" }).mapping.walk none →
        parent.source.includes node.source = true ∧
          parent.generated.includes node.generated = true := by
  have hslice : (⟨10, 24⟩ : Span).slice "<template>\x7b\x7b@name.size\x7d\x7d</template>" =
      some "\x7b\x7b@name.size\x7d\x7d" := by decide +kernel
  exact ⟨hslice, (emission_properly_nested _ hslice).2.2.2.2.1⟩

end Compiled

end TypedTemplate
