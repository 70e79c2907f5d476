/-
Directives and what they apply to. Every directive of a woven module is that of a comment in a template of the
script or of the companion. Where nothing follows the comment, the directive applies to the end of the comment,
which has no bytes: it covers nothing in front of it and nothing after it, but it does cover what is reported
about a stretch around it, such as the element that it ends.
-/
import TypedTemplate.Proofs.Diagnostic.Conservation
import TypedTemplate.Proofs.Diagnostic.Suppression
import TypedTemplate.Proofs.Emit.Directives

namespace TypedTemplate

open Draft Template

/-! ## Spans without bytes -/

/-- A span without bytes meets what it sits in. -/
theorem Span.empty_intersects (offset : Nat) (s : Span) : (Span.empty offset).intersects s = s.contains offset := by
  by_cases hs : s.isEmpty = true
  · have hs' : s.start = s.stop := by simpa [isEmpty] using hs
    simp only [intersects, hs, if_true, contains, empty, hs', ← Bool.decide_and, decide_eq_decide]
    omega
  · simp only [intersects, hs, Bool.false_eq_true, if_false]
    exact if_pos (by simp [isEmpty, empty])

/-! ## Directives of a template -/

theorem Template.not_governs_nil {c : Comment} {target : Option Span} : ¬ Governs [] c target := by
  rintro ⟨body, hbody, h⟩
  cases hbody with
  | program hb _ => cases hb
  | inverse hb _ _ => cases hb
  | children he _ => cases he
  | self _ =>
    rcases h with h | ⟨e, he, -⟩
    · cases target with
      | none =>
        obtain ⟨front, back, h, -⟩ := h
        exact List.append_ne_nil_of_right_ne_nil front (List.cons_ne_nil _ _) h.symm
      | some target =>
        obtain ⟨front, gap, y, back, h, -⟩ := h
        exact List.append_ne_nil_of_right_ne_nil front (List.cons_ne_nil _ _) h.symm
    · cases he

/-- A directive is that of a comment in a template of the file. The template stands in the file at `start`;
the directive stands where the comment does, and applies to the target of the comment, or, if it has none, to
the end of the comment. -/
def Directive.Stems (directive : Directive) (f : SourceFile) (target : Option Span) : Prop :=
  ∃ start source t c, Text.slice f.contents start (start + Text.size source) = some source ∧
    parse source = .ok t ∧ Governs t.body c target ∧
    Recognized.ofComment c.value = .directive directive.kind ∧ directive.file = f.path ∧
    directive.location = c.span.shift start ∧
    directive.area = (target.getD (.empty c.span.stop)).shift start

theorem Directive.Stems.area_eq {directive : Directive} {f : SourceFile} (h : directive.Stems f none) :
    directive.area = .empty directive.location.stop := by
  obtain ⟨start, source, t, c, -, -, -, -, -, hlocation, harea⟩ := h
  rw [harea, hlocation]
  rfl

namespace Emit

theorem mem_notes_comment {c : Comment} {target : Option Span} {l : LocalDirective}
    (hl : .directive l ∈ notes (comment c target)) (hkind : l.kind ≠ .noCheck) :
    Recognized.ofComment c.value = .directive l.kind ∧ l.location = c.span ∧
      l.area = some (target.getD (.empty c.span.stop)) := by
  unfold comment at hl
  split at hl
  · cases hl
  · cases List.mem_singleton.1 hl
  · cases List.mem_singleton.1 hl
    exact absurd rfl hkind
  · rename_i hcomment
    cases List.mem_singleton.1 hl
    exact ⟨hcomment, rfl, rfl⟩

end Emit

namespace Compiled

/-- The directives of a compiled template that do not speak for all of it are those of comments in it. -/
theorem stems_of_mem_directives {embedding : String} {content : Span} {o : CompileOptions}
    {directive : Directive} (h : directive ∈ (ofTemplate embedding content o).directives)
    (hkind : directive.kind ≠ .noCheck) :
    ∃ target, directive.Stems ⟨o.file, embedding⟩ target := by
  obtain ⟨l, hl, rfl⟩ := List.mem_map.1 h
  have hread : ∃ t, parse ((content.slice embedding).getD "") = .ok t ∧ Emit.Arises t.body (.directive l) := by
    unfold body at hl
    split at hl
    · rename_i t hparse
      have hmem := mem_notes_of_mem_directives hl
      rw [Emit.notes_statements] at hmem
      exact ⟨t, hparse, Emit.arises_statements _ rfl hmem⟩
    · cases hl
  obtain ⟨t, hparse, harises⟩ := hread
  cases hslice : content.slice embedding with
  | none =>
    rw [hslice] at hparse
    cases hparse
    obtain ⟨c, target, hgoverns, -⟩ := harises
    exact absurd hgoverns not_governs_nil
  | some source =>
    rw [hslice, Option.getD_some] at hparse
    obtain ⟨c, target, hgoverns, hl⟩ := harises
    obtain ⟨hcomment, hlocation, harea⟩ := Emit.mem_notes_comment hl hkind
    refine ⟨target, content.start, source, t, c, ?_, hparse, hgoverns, hcomment, rfl, ?_, ?_⟩
    · rw [← (Text.size_of_slice hslice).1]
      exact hslice
    · rw [← hlocation]
    · simp only [harea]

end Compiled

namespace Directive

variable {directive : Directive} {target : Option Span}

/-- A directive of a part of a file is one of the file. -/
theorem Stems.shift {path embedding : String} {f : SourceFile} {delta stop : Nat}
    (h : directive.Stems ⟨path, embedding⟩ target) (hpath : path = f.path)
    (hslice : Text.slice f.contents delta stop = some embedding) : (directive.shift delta).Stems f target := by
  obtain ⟨start, source, t, c, hsource, hparse, hgoverns, hcomment, hfile, hlocation, harea⟩ := h
  refine ⟨delta + start, source, t, c, ?_, hparse, hgoverns, hcomment, hfile.trans hpath, ?_, ?_⟩
  · rw [Nat.add_assoc]
    exact Text.slice_of_slice hslice hsource
  · simp only [Directive.shift, hlocation, Span.shift, Span.mk.injEq]
    omega
  · simp only [Directive.shift, harea, Span.shift, Span.mk.injEq]
    omega

/-- There are no directives in a text without characters. -/
theorem not_stems_empty {path : String} : ¬ directive.Stems ⟨path, ""⟩ target := by
  rintro ⟨start, source, t, c, hsource, hparse, hgoverns, -⟩
  obtain rfl : source = "" := by
    have hle := (Text.size_of_slice hsource).2
    exact String.utf8ByteSize_eq_zero_iff.1 (Nat.le_zero.1 (Nat.le_of_add_left_le hle))
  cases hparse
  exact not_governs_nil hgoverns

end Directive

/-! ## Directives of a module -/

namespace Module

variable {reader : ScriptReader} {env : Environment} {script : SourceFile} {companion : Option SourceFile} {m : Module}

/-- Every directive of a woven module that does not speak for a whole template is that of a comment in a
template of one of its files. -/
theorem stems_of_weave (hreader : reader.Faithful) (h : weaveWith reader env script companion = .ok (some m))
    {directive : Directive} (hdirective : directive ∈ m.directives) (hkind : directive.kind ≠ .noCheck) :
    ∃ f ∈ script :: companion.toList, ∃ target, directive.Stems f target := by
  obtain ⟨used, rs, hused, hrs, -, -, hfiles, hdirectives⟩ := weave_eq_ok hreader h
  obtain ⟨r, hr, d, hd, rfl⟩ := hdirectives directive hdirective
  have hfile := (hfiles r hr d hd).1
  cases hrs r hr with
  | @own range content o hdelimited =>
    obtain ⟨target, hstems⟩ := Compiled.stems_of_mem_directives hd hkind
    refine ⟨script, List.mem_cons_self, target, ?_⟩
    cases hslice : range.slice script.contents with
    | none =>
      rw [hslice] at hstems
      exact absurd hstems Directive.not_stems_empty
    | some embedding =>
      rw [hslice] at hstems
      exact hstems.shift ((file_of_mem_directives d hd).symm.trans hfile) hslice
  | @companion template place o hcompanion =>
    obtain ⟨target, hstems⟩ := Compiled.stems_of_mem_directives hd hkind
    have hmem : template ∈ script :: companion.toList :=
      List.mem_cons_of_mem _ (Option.mem_toList.2 (hused template hcompanion))
    exact ⟨template, hmem, target,
      hstems.shift ((file_of_mem_directives d hd).symm.trans hfile) (Text.slice_self template.contents)⟩

/-- A directive with nothing to apply to has, in every run, met those diagnostics of its module that are
placed in its file around the end of its comment, and that no directive before it covers. Without any it is
not used: it suppresses nothing, and if it expects an error it is reported. -/
theorem targetless_directives (hreader : reader.Faithful) (h : weaveWith reader env script companion = .ok (some m))
    {i : Nat} {directive : Directive} (hi : m.directives[i]? = some directive) (hkind : directive.kind ≠ .noCheck) :
    (∃ f ∈ script :: companion.toList, ∃ target, directive.Stems f target) ∧
    ∀ f, directive.Stems f none → directive.area = .empty directive.location.stop ∧
      ∀ modules, m ∈ modules → Distinct modules → ∀ inputs : List Diagnostic,
        (∀ d ∈ inputs, ∀ n ∈ modules, Path.same n.file d.file = true →
          ∃ placed, d.relocate modules n = .ok placed) →
        ∃ (reports : List Report) (result : Relocated),
          Relocated.ofDiagnostics modules inputs = .ok result ∧ reports.map (·.given) = inputs ∧
          (∀ r ∈ reports, r.Stands modules) ∧
          { directive with matchCount := reports.countP fun r => Path.same m.file r.given.file &&
              (Path.same directive.file r.placed.file &&
                r.placed.span.contains directive.location.stop) &&
              (m.directives.take i).all fun earlier => !earlier.covers r.placed } ∈ result.directives ∧
          ((∀ r ∈ reports, Path.same m.file r.given.file = true →
              Path.same directive.file r.placed.file = true →
              r.placed.span.contains directive.location.stop = false) →
            { directive with matchCount := 0 } ∈ result.directives ∧
            (∀ r ∈ reports, r.isClaimedBy m i = false) ∧
            (directive.kind = .expectError → .unused directive ∈ result.diagnostics)) := by
  have hmem := List.mem_of_getElem? hi
  refine ⟨stems_of_weave hreader h hmem hkind, fun f hstems => ⟨hstems.area_eq, ?_⟩⟩
  intro modules hm hdistinct inputs hinputs
  obtain ⟨reports, result, hresult, hgiven, hstands, hanswers⟩ :=
    Relocated.exists_answers hdistinct hinputs
  have hclaims (r : Report) : r.isClaimedBy m i = (Path.same m.file r.given.file &&
      (Path.same directive.file r.placed.file && r.placed.span.contains directive.location.stop) &&
      (m.directives.take i).all fun earlier => !earlier.covers r.placed) := by
    rw [Report.isClaimedBy, hi, Option.any_some, Directive.covers, hstems.area_eq, Span.empty_intersects]
  have hcount : { directive with matchCount := reports.countP (·.isClaimedBy m i) } ∈ result.directives := by
    rw [hanswers.directives, Relocated.claims]
    refine List.mem_flatMap.2 ⟨m, hm, List.mem_mapIdx.2 ?_⟩
    obtain ⟨hlt, hget⟩ := List.getElem?_eq_some_iff.1 hi
    refine ⟨i, hlt, ?_⟩
    rw [hget, matchCount_of_weave h directive hmem, Nat.zero_add]
  refine ⟨reports, result, hresult, hgiven, hstands, ?_, fun haround => ?_⟩
  · simpa only [hclaims] using hcount
  · have hnone (r : Report) (hr : r ∈ reports) : r.isClaimedBy m i = false := by
      rw [hclaims]
      by_cases hfile : Path.same m.file r.given.file = true
      · by_cases hplaced : Path.same directive.file r.placed.file = true
        · simp [haround r hr hfile hplaced]
        · simp [hplaced]
      · simp [hfile]
    rw [List.countP_eq_zero.2 fun r hr => by simp [hnone r hr]] at hcount
    refine ⟨hcount, hnone, fun hexpects => ?_⟩
    rw [hanswers.diagnostics]
    refine List.mem_append_right _ (List.mem_map.2 ⟨_, List.mem_filter.2 ⟨hcount, ?_⟩, rfl⟩)
    simp [hexpects]

/-- A comment that ends an element, and what a checker may report about the code of that element. -/
theorem exists_ending_directive :
    let script : SourceFile :=
      ⟨"a.gts", "<template><p>\x7b\x7b! @glint-expect-error \x7d\x7d</p></template>"⟩
    let d : Diagnostic := { file := "a.gts", start := 190, length := 10, message := "unused", code := 6133 }
    ∃ m directive, weaveWith .plain { native := some { typesModule := "types" } } script none = .ok (some m) ∧
      m.directives = [directive] ∧ directive.kind = .expectError ∧ directive.Stems script none ∧
      m.file = "a.gts" ∧
      (Relocated.ofDiagnostics [m] [d]).toOption.any (fun result =>
        decide (result.diagnostics = [] ∧ result.directives.map (·.matchCount) = [1])) = true := by
  intro script d
  have hweave : ((weaveWith .plain { native := some { typesModule := "types" } } script none).toOption.join.any fun m =>
      decide ((m.directives.map fun d => (d.kind, d.file, d.location, d.area)) =
          [(.expectError, "a.gts", ⟨13, 39⟩, ⟨39, 39⟩)] ∧
        m.file = "a.gts" ∧
        (Relocated.ofDiagnostics [m] [d]).toOption.any (fun result =>
          decide (result.diagnostics = [] ∧ result.directives.map (·.matchCount) = [1])) = true)) = true := by
    decide +kernel
  have hread : ((parse "<p>\x7b\x7b! @glint-expect-error \x7d\x7d</p>").toOption.any fun t =>
      t.body.any fun s => s.element?.any fun e =>
        decide (e.children.map (·.comment?) = [some ⟨" @glint-expect-error ", ⟨3, 29⟩⟩])) = true := by
    decide +kernel
  obtain ⟨m, hm, hcheck⟩ := exists_of_any hweave
  obtain ⟨hdirectives, hmodule, hrun⟩ := of_decide_eq_true hcheck
  obtain ⟨directive, hone, hdirective⟩ := List.map_eq_singleton_iff.1 hdirectives
  simp only [Prod.mk.injEq] at hdirective
  obtain ⟨hkind, hfile, hlocation, harea⟩ := hdirective
  refine ⟨m, directive, hm, hone, hkind, ?_, hmodule, hrun⟩
  cases hparse : parse "<p>\x7b\x7b! @glint-expect-error \x7d\x7d</p>" with
  | error fault =>
    rw [hparse] at hread
    cases hread
  | ok t =>
    rw [hparse] at hread
    obtain ⟨outer, houter, hcheck⟩ := List.any_eq_true.1 hread
    obtain ⟨e, he, hcheck⟩ := (Option.any_eq_true _ _).1 hcheck
    obtain ⟨s, hchildren, hs⟩ := List.map_eq_singleton_iff.1 (of_decide_eq_true hcheck)
    rw [Statement.eq_of_comment? hs] at hchildren
    refine ⟨10, _, t, _, by decide +kernel, hparse, ⟨e.children, ?_, .inl ⟨[], [], hchildren, ?_⟩⟩,
      ?_, hfile, hlocation, harea⟩
    · exact .children (Statement.eq_of_element? he ▸ houter) (.self _)
    · exact List.forall_mem_nil _
    · rw [hkind]
      decide +kernel

theorem targetless_directives_unused :
    let script : SourceFile :=
      ⟨"a.gts", "<template><p>\x7b\x7b! @glint-expect-error \x7d\x7d</p></template>"⟩
    let d : Diagnostic := { file := "b.ts", start := 3, length := 1, message := "no such name", code := 2304 }
    ∃ m directive, weaveWith .plain { native := some { typesModule := "types" } } script none = .ok (some m) ∧
      m.directives[0]? = some directive ∧ directive.kind ≠ .noCheck ∧ directive.Stems script none ∧
      ∃ result, Relocated.ofDiagnostics [m] [d] = .ok result ∧ .unused directive ∈ result.diagnostics := by
  intro script d
  obtain ⟨m, directive, hm, hone, hkind, hstems, hmodule, -⟩ := exists_ending_directive
  have hi : m.directives[0]? = some directive := by rw [hone]; rfl
  have hchecks : directive.kind ≠ .noCheck := by rw [hkind]; decide
  have hother : Path.same m.file d.file = false := by
    rw [hmodule]
    decide +kernel
  obtain ⟨-, hruns⟩ := targetless_directives ScriptReader.faithful_plain hm hi hchecks
  obtain ⟨reports, result, hresult, hgiven, -, -, hunused⟩ := (hruns script hstems).2 [m]
    (List.mem_singleton.2 rfl) (List.pairwise_singleton _ _) [d] (by simp [hother])
  obtain ⟨r, rfl, hr⟩ := List.map_eq_singleton_iff.1 hgiven
  have hreport : .unused directive ∈ result.diagnostics := (hunused (by simp [hr, hother])).2.2 hkind
  exact ⟨m, directive, hm, hi, hchecks, hstems, result, hresult, hreport⟩

/-- What is reported about an element meets a directive at the end of its children, which has nothing to apply
to. -/
theorem targetless_directive_met :
    let script : SourceFile :=
      ⟨"a.gts", "<template><p>\x7b\x7b! @glint-expect-error \x7d\x7d</p></template>"⟩
    let d : Diagnostic := { file := "a.gts", start := 190, length := 10, message := "unused", code := 6133 }
    ∃ m directive, weaveWith .plain { native := some { typesModule := "types" } } script none = .ok (some m) ∧
      m.directives = [directive] ∧ directive.kind = .expectError ∧ directive.Stems script none ∧
      ∃ result, Relocated.ofDiagnostics [m] [d] = .ok result ∧ result.diagnostics = [] ∧
        result.directives.map (·.matchCount) = [1] := by
  intro script d
  obtain ⟨m, directive, hm, hone, hkind, hstems, -, hrun⟩ := exists_ending_directive
  refine ⟨m, directive, hm, hone, hkind, hstems, ?_⟩
  cases hresult : Relocated.ofDiagnostics [m] [d] with
  | error fault =>
    rw [hresult] at hrun
    cases hrun
  | ok result =>
    rw [hresult] at hrun
    obtain ⟨hdiagnostics, hcounts⟩ := of_decide_eq_true hrun
    exact ⟨result, rfl, hdiagnostics, hcounts⟩

end Module

end TypedTemplate
