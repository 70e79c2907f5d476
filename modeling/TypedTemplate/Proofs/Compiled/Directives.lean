/-
Directives of a compiled template. A directive in front of a statement applies to the source of that
statement. If the statement has a node, the directive is one of the template, and every stretch of the code
of the node leads to a span that meets the source of the statement.
-/
import TypedTemplate.Proofs.Compiled
import TypedTemplate.Proofs.Emit.Bodies
import TypedTemplate.Proofs.Mapping.Inside
import TypedTemplate.Proofs.Template.Reader.Statement

namespace TypedTemplate

open Draft Template Mapping

namespace Template

theorem parse_tidy {source : String} {t : Template} (h : parse source = .ok t) : Tidy true t.body := by
  obtain ⟨horder, hplaced⟩ := parse_placed h
  exact ⟨hplaced, parse_neat h, ⟨0, Text.size source, horder⟩, nofun⟩

/-- A statement with a comment before it does not start the text. -/
theorem Precedes.start_pos {body : List Statement} {c : Comment} {s : Statement} {closed : Bool}
    (h : Precedes body c s) (ht : Tidy closed body) : 0 < s.span.start := by
  obtain ⟨front, gap, back, rfl, -⟩ := h
  obtain ⟨lo, hi, horder⟩ := ht.inOrder
  obtain ⟨-, hrest, -⟩ := List.pairwise_append.1 (List.pairwise_map.1 horder.pairwise)
  have hle : c.span.stop ≤ s.span.start := (List.pairwise_cons.1 hrest).1 s (by simp)
  have hlt : c.span.start < c.span.stop :=
    statementsNeat_iff.1 ht.neat (.mustacheComment c) (by simp)
  omega

theorem Precedes.mem {body : List Statement} {c : Comment} {s : Statement} (h : Precedes body c s) :
    s ∈ body := by
  obtain ⟨front, gap, back, rfl, -⟩ := h
  simp

end Template

namespace Compiled

variable {embedding source : String} {content : Span} {o : CompileOptions} {t : Template}

/-- A node of the mapping, sought by the span of the template that it stands for. -/
def sought (o : CompileOptions) (hslice : content.slice embedding = some source) {n : Tree} {span : Span}
    (hsource : n.source = span.shift content.start) (hspan : span.start < span.stop) : Sought where
  root := (ofTemplate embedding content o).mapping
  found := n
  delta := content.start
  span := span
  directives := Draft.directives (body o source)
  sound := sound_mapping o hslice
  source := hsource
  nonempty := hspan

/-- Below the template, every node of the mapping is in what is written for the statements. -/
theorem inBody_sought (hslice : content.slice embedding = some source) (hparse : parse source = .ok t)
    {n : Tree} (hn : n ∈ (ofTemplate embedding content o).mapping.nodes) {span : Span}
    (hsource : n.source = span.shift content.start) (hspan : span.start < span.stop)
    (hpos : 0 < span.start) : (sought o hslice hsource hspan).InBody t.body := by
  have hbody : body o source = Emit.statements { forms := o.forms, globals := o.globals } 1 t.body := by
    rw [body, hparse]
  have hbelow : ∃ r ∈ trees content.start (Text.size (header o)) (body o source), n ∈ r.nodes := by
    rw [mapping_eq o hslice] at hn
    have hstart := congrArg Span.start hsource
    rcases Tree.mem_nodes.1 hn with rfl | ⟨c, hc, hn⟩
    · simp only [Tree.source, Span.ofText, Span.shift] at hstart
      omega
    · rw [List.mem_singleton.1 hc] at hn
      rcases Tree.mem_nodes.1 hn with rfl | hn
      · simp only [templateMark, Mark.tree, Tree.source, Span.shift] at hstart
        omega
      · exact hn
  rw [hbody] at hbelow
  refine ⟨(templateMark o source).tree content.start (Text.size (header o)), Text.size (header o),
    { forms := o.forms, globals := o.globals }, 1, .inl ⟨?_, le_rfl, ⟨[], [], ?_, by simp⟩, hbelow, ?_⟩⟩
  · show _ ∈ (ofTemplate embedding content o).mapping.nodes
    rw [mapping_eq o hslice]
    exact Tree.mem_nodes.2 (.inr ⟨_, List.mem_singleton.2 rfl, Tree.self_mem_nodes _⟩)
  · rw [← hbody]
    simp [sought, templateMark, Mark.tree, Tree.children]
  · rw [← hbody]
    exact fun l hl => hl

section
variable {ss : List Statement} {c : Comment} {s : Statement} {n : Tree}

/-- A directive in front of a statement that has a node is one of the template, for the source of the
node; and every stretch of the code of the node is after the start of the code and leads to a span that
meets that source. -/
theorem meets_of_precedes (hslice : content.slice embedding = some source) (hparse : parse source = .ok t)
    (hbody : IsBody t.body ss) (hc : Precedes ss c s)
    (hn : n ∈ (ofTemplate embedding content o).mapping.nodes)
    (hsource : n.source = s.span.shift content.start) {kind : DirectiveKind}
    (hkind : Recognized.ofComment c.value = .directive kind) (hchecks : kind ≠ .noCheck) :
    { kind, file := o.file, location := c.span.shift content.start, area := n.source } ∈
        (ofTemplate embedding content o).directives ∧
      ∀ range : Span, range.start < range.stop → range.In n.generated.start n.generated.stop →
        0 < range.start ∧ (ofTemplate embedding content o).mapping.Meets n range := by
  have htidy := parse_tidy hparse
  obtain ⟨closed, hclosed⟩ := hbody.tidy htidy
  have hsignificant : s.IsSignificant := by
    obtain ⟨-, -, -, -, -, hs⟩ := hc
    exact hs
  have hspan := (statementsNeat_iff.1 hclosed.neat s hc.mem).span_lt hsignificant
  have hinBody := inBody_sought hslice hparse hn hsource hspan (hc.start_pos hclosed)
  obtain ⟨hin, -⟩ := hinBody.of_isBody hbody htidy hc.mem rfl
  refine ⟨?_, fun range hlt hrange => ?_⟩
  · have hlocal := hin.mem_directives hc rfl hkind hchecks
    simp only [ofTemplate, hslice, Option.getD_some, List.mem_map]
    exact ⟨_, hlocal, by rw [hsource]; rfl⟩
  · obtain rfl := hclosed.closed_of_precedes hc
    rcases hin.fronted hclosed hc.mem hsignificant rfl with ⟨hfronted, hinset⟩ | hempty
    · refine ⟨hfronted.start_pos.trans_le hrange.lower,
        hfronted.meets (sound_mapping o hslice) hinset ?_ hlt hrange⟩
      rw [show (sought o hslice hsource hspan).found.source = _ from hsource]
      exact Nat.add_lt_add_right hspan _
    · exfalso
      have hempty : n.generated.start = n.generated.stop := hempty
      have := hrange.lower
      have := hrange.upper
      omega

end

end Compiled

end TypedTemplate
