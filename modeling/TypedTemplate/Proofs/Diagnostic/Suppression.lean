/-
Directives keep the checker silent about the statement they stand in front of. Whatever the checker reports
about the code of that statement, if it has a place in the file, is placed where the directive applies; so a
directive of the module covers it, and it is counted there and not reported.
-/
import TypedTemplate.Proofs.Compiled.Directives
import TypedTemplate.Proofs.Diagnostic.Counting
import TypedTemplate.Proofs.Module.Range

namespace TypedTemplate

open Mapping Template

/-! ## Places of code in a segment -/

theorem Span.ofLength_eq {r : Span} (h : r.In 0 maxPosition) : ofLength r.start r.length = r := by
  rw [ofLength, length, Nat.add_sub_cancel' h.ordered, Nat.min_eq_left h.upper]

namespace Segment

/-- Code that meets the source of a node leads to a span of the file that does so. -/
theorem lt_of_meets {s : Segment} {tree n : Tree} (hm : s.mapping = some tree) {range r : Span}
    (hmeets : tree.Meets n range) (hr : s.toSourceRange (range.shift s.generated.start) = .ok r) :
    r.start < (n.source.shift s.source.start).stop ∧ (n.source.shift s.source.start).start < r.stop := by
  obtain ⟨around, first, last, haround, hfirst, hlast, hmeet, hends⟩ := hmeets
  simp only [Span.shift]
  by_cases heven : around.source.length = around.generated.length
  · have hnone : s.unevenGenerated? (range.shift s.generated.start) = none := by
      simp [unevenGenerated?, hm, Span.shift, haround, heven]
    obtain ⟨hstart, hstop⟩ := hends heven
    rw [toSourceRange, hnone] at hr
    simp only [Span.shift, toSource_of_narrowest hm hfirst, toSource_of_narrowest hm hlast, ordered] at hr
    split at hr
    · cases hr
      dsimp only
      omega
    · cases hr
  · have hsome : s.unevenGenerated? (range.shift s.generated.start) = some around := by
      simp [unevenGenerated?, hm, Span.shift, haround, heven]
    rw [toSourceRange, hsome] at hr
    cases hr
    simp only [Span.shift]
    omega

/-- The template of a segment has a comment that says a directive, in front of a statement with a node.
`text` is the text of the file. -/
def Directs (seg : Segment) (text : String) (kind : DirectiveKind) (c : Comment) (n : Tree) : Prop :=
  ∃ tree template embedding source t body s, seg.mapping = some tree ∧ tree.children = [template] ∧
    seg.source.slice text = some embedding ∧ template.source.slice embedding = some source ∧
    parse source = .ok t ∧ IsBody t.body body ∧ Precedes body c s ∧
    Recognized.ofComment c.value = .directive kind ∧
    n ∈ tree.nodes ∧ n.source = s.span.shift template.source.start

end Segment

namespace Template.Statement

/-- A statement as a comment. -/
def comment? : Statement → Option Comment
  | .mustacheComment c => some c
  | _ => none

/-- A statement as an element. -/
def element? : Statement → Option Element
  | .element e => some e
  | _ => none

theorem eq_of_comment? {s : Statement} {c : Comment} (h : s.comment? = some c) : s = .mustacheComment c := by
  cases s <;> cases h
  rfl

theorem eq_of_element? {s : Statement} {e : Element} (h : s.element? = some e) : s = .element e := by
  cases s <;> cases h
  rfl

instance : (s : Statement) → Decidable s.IsSignificant
  | .text t => inferInstanceAs (Decidable (t.isBlank = false))
  | .comment _ => inferInstanceAs (Decidable False)
  | .mustacheComment _ => inferInstanceAs (Decidable False)
  | .mustache _ => inferInstanceAs (Decidable True)
  | .block _ => inferInstanceAs (Decidable True)
  | .element _ => inferInstanceAs (Decidable True)

end Template.Statement

namespace Module

/-! ## Templates of segments -/

/-- A segment with a mapping is a template of its file, whose directives are directives of the module. -/
theorem template_of_segment {reader : ScriptReader} (hreader : reader.Faithful) {env : Environment}
    {script : SourceFile} {companion : Option SourceFile} {m : Module}
    (h : weaveWith reader env script companion = .ok (some m)) {s : Segment} (hs : s ∈ m.segments) :
    ∃ f ∈ script :: companion.toList, s.file = f.path ∧ s.StandsFor f.contents ∧
      ∀ tree embedding, s.mapping = some tree → s.source.slice f.contents = some embedding →
        ∃ content o, tree = (Compiled.ofTemplate embedding content o).mapping ∧
          ∀ d ∈ (Compiled.ofTemplate embedding content o).directives,
            d.file = s.file ∧ d.shift s.source.start ∈ m.directives := by
  obtain ⟨used, rs, hused, hrs, hsegments, -, hdirectives, -⟩ := weave_eq_ok hreader h
  have hfiles (f : SourceFile) (hf : f ∈ script :: used.toList) : f ∈ script :: companion.toList := by
    rcases List.mem_cons.1 hf with rfl | hf
    · exact List.mem_cons_self
    · rw [Option.mem_toList] at hf
      exact List.mem_cons_of_mem _ (Option.mem_toList.2 (hused f hf))
  cases hmapping : s.mapping with
  | none =>
    obtain ⟨f, hf, hfile, hstands⟩ := standsFor_of_correlate hsegments hrs hs
    exact ⟨f, hfiles f hf, hfile, hstands, nofun⟩
  | some tree =>
    obtain ⟨r, hr, start, rfl⟩ := mem_correlate hmapping hsegments hs
    have hr' := hdirectives r hr
    cases hrs r hr with
    | @own range content o hd =>
      refine ⟨script, List.mem_cons_self, rfl, standsFor_own o hd start, ?_⟩
      intro tree embedding htree hslice
      have hembedding : (range.slice script.contents).getD "" = embedding := by
        rw [show range.slice script.contents = some embedding from hslice, Option.getD_some]
      subst hembedding
      cases htree
      exact ⟨⟨content.start - range.start, content.stop - range.start⟩, o,
        (Option.some.inj hmapping).symm, hr'⟩
    | @companion template place o hused =>
      refine ⟨template, hfiles _ (by rw [hused]; simp), rfl, standsFor_companion template place start o, ?_⟩
      intro tree embedding htree hslice
      have hembedding : template.contents = embedding :=
        Option.some.inj ((Text.slice_self template.contents).symm.trans hslice)
      subst hembedding
      cases htree
      exact ⟨.ofText template.contents, o, (Option.some.inj hmapping).symm, hr'⟩

/-! ## Diagnostics about the code of a statement -/

section
variable {m : Module} {s : Segment} {tree n : Tree} {text : String}

/-- Code after the start of a segment, all in the segment, leads where the segment says. -/
theorem locate?_of_mem (hw : m.Woven) (hs : s ∈ m.segments) {start stop : Nat}
    (hstart : s.generated.start < start) (hle : start ≤ stop) (hstop : stop ≤ s.generated.stop) :
    m.toSourceRange? start stop = (s.toSourceRange ⟨start, stop⟩).map (fun r => some (s.file, r)) ∧
      m.locate? ⟨start, stop⟩ = m.toSourceRange? start stop := by
  have hfirst := segmentAt?_of_mem hw.contiguous hs hstart (hle.trans hstop)
  have hlast := segmentAt?_of_mem hw.contiguous hs (hstart.trans_le hle) hstop
  refine ⟨toSourceRange?_of_one hlast hstart.le hle, ?_⟩
  simp only [locate?, toSource?, hfirst, hlast, Option.map_some, Path.same_self, if_true]

/-- A diagnostic about code of a node is placed where it meets the source of the node, if what the code
leads to is in order. -/
theorem relocate_of_meets (hw : m.Woven) (hs : s ∈ m.segments) (hstands : s.StandsFor text)
    (hsize : Text.size text ≤ maxPosition) (htree : s.mapping = some tree) (hn : n ∈ tree.nodes)
    {d : Diagnostic} (hlt : d.span.start < d.span.stop)
    (hin : (n.generated.shift s.generated.start).includes d.span = true)
    (hmeets : ∀ range : Span, range.start < range.stop → range.In n.generated.start n.generated.stop →
      0 < range.start ∧ tree.Meets n range)
    (hordered : m.toSourceRange? d.span.start d.span.stop ≠ .error .disordered)
    {modules : List Module} {related : List RelatedPlace}
    (hrelated : d.related.mapM (·.relocate modules) = .ok related) :
    ∃ placed, d.relocate modules m = .ok placed ∧ placed.file = s.file ∧
      placed.span.start < (n.source.shift s.source.start).stop ∧
      (n.source.shift s.source.start).start < placed.span.stop := by
  obtain ⟨hlower, hupper⟩ := Span.includes_iff.1 hin
  simp only [Span.shift] at hlower hupper
  -- the stretch of the segment's code
  obtain ⟨range, hrange⟩ : ∃ range : Span, d.span = range.shift s.generated.start := by
    refine ⟨⟨d.span.start - s.generated.start, d.span.stop - s.generated.start⟩, ?_⟩
    rw [Span.shift, Nat.sub_add_cancel (by omega), Nat.sub_add_cancel (by omega)]
  rw [hrange] at hlt hlower hupper hordered
  simp only [Span.shift] at hlt hlower hupper
  obtain ⟨hpos, hmeets⟩ := hmeets range (by omega) ⟨by omega, by omega, by omega⟩
  have hcode := ((hstands.mapped tree htree).inside n hn).2.upper
  have hsegment := hstands.code_ordered
  rw [Span.length] at hcode
  have hstart : s.generated.start < range.start + s.generated.start := by omega
  have hle : range.start + s.generated.start ≤ range.stop + s.generated.start := hlt.le
  have hstop : range.stop + s.generated.start ≤ s.generated.stop := by omega
  obtain ⟨hwhere, hlocate⟩ := locate?_of_mem hw hs hstart hle hstop
  rcases hstands.toSourceRange_cases hle hstart.le hstop with ⟨r, hr, hin⟩ | ⟨hr, -⟩
  · have hspan : Span.ofLength r.start r.length = r :=
      Span.ofLength_eq (hin.mono (Nat.zero_le _) (hstands.source_in.upper.trans hsize))
    refine ⟨{ d with file := s.file, start := r.start, length := r.length, related }, ?_, rfl, ?_⟩
    · rw [Diagnostic.relocate, hrelated, hrange]
      simp only [bind, Except.bind, Span.shift, hlocate, hwhere, hr]
      rfl
    · simp only [Diagnostic.span, hspan]
      exact Segment.lt_of_meets htree hmeets hr
  · exact absurd (hwhere.trans (congrArg (Except.map _) hr)) hordered

end

/-! ## Suppression -/

section
variable {reader : ScriptReader} {env : Environment} {script : SourceFile} {companion : Option SourceFile} {m : Module}

/-- Directives in front of statements are complete. Let a comment of a template, in any of its bodies, say a
directive that ignores or expects an error, and let the statement after it have a node. Then the directive is
one of the module, for the source of the node. And a diagnostic about the module, over one or more bytes of the
code of the node, whose place in the file is in order, changes a run in one way: one directive, which covers
the diagnostic at its place, counts one more. -/
theorem directives_suppress_statements (hreader : reader.Faithful)
    (h : weaveWith reader env script companion = .ok (some m)) {seg : Segment} (hseg : seg ∈ m.segments) :
    ∃ f ∈ script :: companion.toList, seg.file = f.path ∧
      ∀ kind c n, seg.Directs f.contents kind c n → kind ≠ .noCheck →
        (∃ directive ∈ m.directives, directive.kind = kind ∧ directive.file = f.path ∧
          directive.area = n.source.shift seg.source.start) ∧
        (Text.size f.contents ≤ maxPosition →
          ∀ modules, m ∈ modules → Distinct modules →
          ∀ d : Diagnostic, Path.same m.file d.file = true → d.span.start < d.span.stop →
          (n.generated.shift seg.generated.start).includes d.span = true →
          m.toSourceRange? d.span.start d.span.stop ≠ .error .disordered →
          ∀ related, d.related.mapM (·.relocate modules) = .ok related →
          ∀ before after without, Relocated.ofDiagnostics modules (before ++ after) = .ok without →
          ∃ placed result, d.relocate modules m = .ok placed ∧
            Relocated.ofDiagnostics modules (before ++ d :: after) = .ok result ∧
            Relocated.Absorbs placed without result) := by
  obtain ⟨f, hf, hfile, hstands, htemplate⟩ := template_of_segment hreader h hseg
  refine ⟨f, hf, hfile, fun kind c n hdirects hkind => ?_⟩
  obtain ⟨tree, template, embedding, source, t, body, s, htree, hchildren, hembedding, hsource, hparse, hbody,
    hprecedes, hcomment, hn, hnode⟩ := hdirects
  obtain ⟨content, o, rfl, hdirectives⟩ := htemplate tree embedding htree hembedding
  obtain rfl : content = template.source :=
    congrArg Tree.source (List.singleton_inj.1 hchildren)
  obtain ⟨hmem, hmeets⟩ :=
    Compiled.meets_of_precedes hsource hparse hbody hprecedes hn hnode hcomment hkind
  obtain ⟨hsame, hmem⟩ := hdirectives _ hmem
  refine ⟨⟨_, hmem, rfl, hsame.trans hfile, rfl⟩, ?_⟩
  intro hsize modules hm hdistinct d hd hlt hin hordered related hrelated before after without hwithout
  obtain ⟨placed, hplaced, hplacedFile, hstart, hstop⟩ :=
    relocate_of_meets (woven_of_weave hreader h) hseg hstands hsize htree hn hlt hin hmeets hordered hrelated
  have hcovers : ∃ directive ∈ m.directives, directive.covers placed = true := by
    refine ⟨_, hmem, ?_⟩
    rw [Directive.covers, Bool.and_eq_true]
    refine ⟨?_, Span.intersects_of_lt hstart hstop⟩
    rw [hplacedFile]
    exact hsame ▸ Path.same_self _
  obtain ⟨result, hresult, habsorbs⟩ := Relocated.absorbs hdistinct hm hd hplaced hcovers hwithout
  exact ⟨placed, result, hplaced, hresult, habsorbs⟩

theorem directives_suppress_statements_in_element :
    let source := "<p>\x7b\x7b! @glint-expect-error \x7d\x7d\x7b\x7b@a.b\x7d\x7d</p>"
    let script : SourceFile := ⟨"a.gts", "<template>" ++ source ++ "</template>"⟩
    let d : Diagnostic := { file := "a.gts", start := 265, length := 14, message := "no such key", code := 2339 }
    ∃ m seg c n, weaveWith .plain { native := some { typesModule := "types" } } script none = .ok (some m) ∧
      seg ∈ m.segments ∧ seg.Directs script.contents .expectError c n ∧
      (n.generated.shift seg.generated.start).includes d.span = true ∧
      ∃ result, Relocated.ofDiagnostics [m] [d] = .ok result ∧ result.diagnostics = [] ∧
        result.directives.map (·.matchCount) = [1] := by
  intro source script d
  have hweave : ((weaveWith .plain { native := some { typesModule := "types" } } script none).toOption.join.any
      fun m => m.segments.any fun seg => seg.mapping.any fun tree => tree.nodes.any fun n =>
        decide (m.file = "a.gts" ∧ (m.toSourceRange? 265 279).toOption.isSome = true ∧
          ((Relocated.ofLocated [m] []).directives.map fun d => (d.kind, d.matchCount)) =
            [(.expectError, 0)] ∧ (Relocated.ofLocated [m] []).diagnostics.length = 1 ∧
          seg.source = ⟨0, 62⟩ ∧ seg.generated = ⟨0, 325⟩ ∧ tree.children.map (·.source) = [⟨10, 51⟩] ∧
          n.source = ⟨39, 47⟩ ∧ n.generated = ⟨206, 287⟩)) = true := by
    decide +kernel
  have hread : ((parse source).toOption.any fun t => t.body.any fun s => s.element?.any fun e =>
        decide ((e.children.map fun s => (s.comment?.map (·.value), s.span, decide s.IsSignificant)) =
          [(some " @glint-expect-error ", ⟨3, 29⟩, false), (none, ⟨29, 37⟩, true)])) = true := by
    decide +kernel
  obtain ⟨m, hm, hcheck⟩ := exists_of_any hweave
  obtain ⟨seg, hseg, hcheck⟩ := List.any_eq_true.1 hcheck
  obtain ⟨tree, htree, hcheck⟩ := (Option.any_eq_true _ _).1 hcheck
  obtain ⟨n, hn, hcheck⟩ := List.any_eq_true.1 hcheck
  obtain ⟨hfile, hplace, hcounts, hreports, hsource, hgenerated, hcontent, hnode, hcode⟩ :=
    of_decide_eq_true hcheck
  obtain ⟨t, ht, hcheck⟩ := (Option.any_eq_true _ _).1 hread
  obtain ⟨outer, houter, hcheck⟩ := List.any_eq_true.1 hcheck
  obtain ⟨e, he, hcheck⟩ := (Option.any_eq_true _ _).1 hcheck
  obtain ⟨comment, rest, hsplit, hcomment, hrest⟩ := List.map_eq_cons_iff.1 (of_decide_eq_true hcheck)
  obtain ⟨next, last, rfl, hnext, hlast⟩ := List.map_eq_cons_iff.1 hrest
  obtain rfl := List.map_eq_nil_iff.1 hlast
  simp only [Prod.mk.injEq, decide_eq_true_eq] at hcomment hnext
  obtain ⟨c, hc, hvalue⟩ := Option.map_eq_some_iff.1 hcomment.1
  obtain ⟨template, htemplate, hspan⟩ := List.map_eq_singleton_iff.1 hcontent
  have hdirects : seg.Directs script.contents .expectError c n := by
    refine ⟨tree, template, script.contents, source, t, e.children, next, htree, htemplate, ?_, ?_, ?_, ?_, ?_, ?_,
      hn, ?_⟩
    · rw [hsource]
      exact Text.slice_self script.contents
    · rw [hspan]
      decide +kernel
    · cases hparse : parse source with
      | error fault =>
        rw [hparse] at ht
        cases ht
      | ok found =>
        rw [hparse] at ht
        rw [Option.some.inj ht]
    · exact .children (Statement.eq_of_element? he ▸ houter) (.self _)
    · rw [hsplit, Statement.eq_of_comment? hc]
      exact ⟨[], [], [], rfl, nofun, hnext.2.2⟩
    · rw [hvalue]
      decide +kernel
    · rw [hnode, hspan, hnext.2.1]
      rfl
  have hincludes : (n.generated.shift seg.generated.start).includes d.span = true := by
    rw [hcode, hgenerated]
    decide
  refine ⟨m, seg, c, n, hm, hseg, hdirects, hincludes, ?_⟩
  obtain ⟨f, hf, -, hsuppress⟩ := directives_suppress_statements ScriptReader.faithful_plain hm hseg
  obtain rfl := List.mem_singleton.1 hf
  have hplaced : m.toSourceRange? d.span.start d.span.stop ≠ .error .disordered := by
    intro hfault
    rw [show m.toSourceRange? 265 279 = _ from hfault] at hplace
    cases hplace
  obtain ⟨placed, result, -, hresult, habsorbs⟩ := (hsuppress .expectError c n hdirects nofun).2
    (by decide +kernel) [m] (List.mem_singleton.2 rfl) (List.pairwise_singleton _ _) d
    (by rw [hfile]; decide +kernel) (by decide) hincludes hplaced [] rfl [] []
    (Relocated.ofLocated [m] []) (Relocated.ofDiagnostics_eq [m] [])
  obtain ⟨kept, before, directive, after, -, hwithout, hcounted, hkept, hdiagnostics⟩ := habsorbs
  -- there is one directive, so it is the one that counts
  obtain ⟨rfl, hone⟩ : before = [] ∧ (directive :: after).map (fun d => (d.kind, d.matchCount)) =
      [(.expectError, 0)] := by
    rw [hwithout, List.map_append, List.append_eq_singleton_iff] at hcounts
    rcases hcounts with ⟨hbefore, hone⟩ | ⟨-, hnil⟩
    · exact ⟨List.map_eq_nil_iff.1 hbefore, hone⟩
    · cases hnil
  rw [List.map_cons, List.cons.injEq, Prod.mk.injEq, List.map_eq_nil_iff] at hone
  obtain ⟨⟨hkind, hcount⟩, rfl⟩ := hone
  rw [List.nil_append] at hwithout hcounted
  have hnone : kept = [] := by
    rw [hkept, hwithout, List.length_append] at hreports
    simpa [Relocated.unused, hkind, hcount] using hreports
  refine ⟨result, hresult, ?_, ?_⟩
  · rw [hdiagnostics, hcounted, hnone]
    simp [Relocated.unused]
  · rw [hcounted, List.map_singleton, hcount]

end

end Module

end TypedTemplate
