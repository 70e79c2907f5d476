/-
Where the issues and directives of a module are. Each comes from one template, is counted from the start of that
template, then from the start of its embedding, and at last from the start of the file; so it is shown in the file
that holds the template, inside the embedding, and never in the middle of a character. A text that is no template
has one issue and is compiled as if nothing were written there.
-/
import TypedTemplate.Proofs.Emit.Anchored
import TypedTemplate.Proofs.Module.Weave
import TypedTemplate.Proofs.Template.Reader.Statement

namespace TypedTemplate

/-! ## Compiled templates -/

namespace Compiled

variable {embedding source : String} {content : Span}

variable (o : CompileOptions) (h : content.slice embedding = some source)
include o h

omit h in
theorem cuts_body (source : String) : ∀ n ∈ Draft.notes (body o source), n.Cuts source := by
  have hyields := Template.parse_yields source
  unfold body
  split
  · rename_i t ht
    rw [Emit.notes_statements]
    exact Emit.cuts_statements _ (hyields.ok t ht).statements
  · rename_i e he
    exact List.forall_mem_singleton.2 (hyields.error e he)

theorem located_issues :
    ∀ i ∈ (ofTemplate embedding content o).issues, i.file = o.file ∧ i.location.Cuts embedding := by
  intro i hi
  simp only [ofTemplate, h, Option.getD_some] at hi
  obtain ⟨⟨cause, span⟩, hmem, rfl⟩ := List.mem_map.1 hi
  have hcuts : span.Cuts source := cuts_body o source _ (Draft.mem_notes_of_mem_issues hmem)
  exact ⟨rfl, (hcuts.shift h).cuts⟩

/-- A directive without an area of its own applies to the whole embedding. -/
theorem located_directives :
    ∀ d ∈ (ofTemplate embedding content o).directives,
      d.file = o.file ∧ d.location.Cuts embedding ∧ d.area.Cuts embedding := by
  intro d hd
  simp only [ofTemplate, h, Option.getD_some] at hd
  obtain ⟨l, hmem, rfl⟩ := List.mem_map.1 hd
  obtain ⟨hlocation, harea⟩ := cuts_body o source _ (Draft.mem_notes_of_mem_directives hmem)
  refine ⟨rfl, (hlocation.shift h).cuts, ?_⟩
  cases hl : l.area with
  | none => exact ⟨embedding, Text.slice_self embedding⟩
  | some area => exact ((harea area hl).shift h).cuts

/-- The code of a text that is no template is that of no text. -/
theorem ofTemplate_unreadable {e : Template.ParseError} (he : Template.parse source = .error e) :
    (ofTemplate embedding content o).issues = [⟨.unreadable e.fault, o.file, e.span.shift content.start⟩] ∧
      (ofTemplate embedding content o).directives = [] ∧
      (ofTemplate embedding content o).code = (ofTemplate "" (.empty 0) o).code := by
  have hbody : body o source = [.issue (.unreadable e.fault) e.span] := by
    unfold body
    rw [he]
  simp only [ofTemplate, h, Option.getD_some, hbody]
  exact ⟨rfl, rfl, rfl⟩

end Compiled

/-! ## Templates of a module -/

namespace Module

open Script

namespace Site

/-- The embedding and the content are stretches of the file, one in the other. -/
structure Stands (s : Site) : Prop where
  range : s.range.Cuts s.file.contents
  content : s.content.CutsIn s.file.contents s.range
  file : s.options.file = s.file.path

variable {s : Site}

theorem Stands.located_issues (h : s.Stands) : ∀ i ∈ s.compiled.issues.map (·.shift s.range.start),
    i.file = s.file.path ∧ i.location.CutsIn s.file.contents s.range := by
  obtain ⟨embedding, hembedding⟩ := h.range
  obtain ⟨text, htext⟩ := h.content.cuts
  intro i hi
  obtain ⟨i, hmem, rfl⟩ := List.mem_map.1 hi
  rw [compiled, hembedding, Option.getD_some] at hmem
  obtain ⟨hfile, hcuts⟩ := Compiled.located_issues s.options (h.content.slice htext hembedding) i hmem
  exact ⟨hfile.trans h.file, hcuts.shift hembedding⟩

theorem Stands.located_directives (h : s.Stands) : ∀ d ∈ s.compiled.directives.map (·.shift s.range.start),
    d.file = s.file.path ∧ d.location.CutsIn s.file.contents s.range ∧
      d.area.CutsIn s.file.contents s.range := by
  obtain ⟨embedding, hembedding⟩ := h.range
  obtain ⟨text, htext⟩ := h.content.cuts
  intro d hd
  obtain ⟨d, hmem, rfl⟩ := List.mem_map.1 hd
  rw [compiled, hembedding, Option.getD_some] at hmem
  obtain ⟨hfile, hlocation, harea⟩ :=
    Compiled.located_directives s.options (h.content.slice htext hembedding) d hmem
  exact ⟨hfile.trans h.file, hlocation.shift hembedding, harea.shift hembedding⟩

/-- A text that is no template: its one issue is shown where the text fails in the file. -/
theorem Stands.unreadable (h : s.Stands) {text : String} {e : Template.ParseError}
    (htext : s.content.slice s.file.contents = some text) (he : Template.parse text = .error e) :
    s.compiled.issues.map (·.shift s.range.start) =
        [⟨.unreadable e.fault, s.file.path, e.span.shift s.content.start⟩] ∧
      s.compiled.directives = [] ∧
      s.compiled.code = (Compiled.ofTemplate "" (.empty 0) s.options).code := by
  obtain ⟨embedding, hembedding⟩ := h.range
  rw [compiled, hembedding, Option.getD_some]
  obtain ⟨hissues, hdirectives, hcode⟩ :=
    Compiled.ofTemplate_unreadable s.options (h.content.slice htext hembedding) he
  refine ⟨?_, hdirectives, hcode⟩
  have hmoved : (e.span.shift (s.content.start - s.range.start)).shift s.range.start =
      e.span.shift s.content.start := by
    have hle := h.content.inside.lower
    simp only [Span.shift, Nat.add_assoc, Nat.sub_add_cancel hle]
  rw [hissues, List.map_singleton, Issue.shift, hmoved, h.file]

end Site

namespace Part

variable {script : SourceFile} {used : Option SourceFile} {p : Part}

theorem Stands.file_mem (h : p.Stands script used) : p.file ∈ script :: used.toList := by
  cases h with
  | refused => exact List.mem_cons_self
  | own => exact List.mem_cons_self
  | companion place hused => exact List.mem_cons_of_mem _ (Option.mem_toList.2 hused)

theorem Stands.site {s : Site} {place : Span} (h : (template s place).Stands script used) : s.Stands := by
  cases h with
  | own hd hfile => exact ⟨hd.range_cuts, ⟨hd.content_cuts, hd.content_in⟩, hfile⟩
  | @companion template _ place _ hfile =>
    have hcuts : (Span.ofText template.contents).Cuts template.contents := ⟨_, Text.slice_self template.contents⟩
    exact ⟨hcuts, hcuts.cutsIn_self, hfile⟩

theorem Stands.range_cuts (h : p.Stands script used) : p.range.Cuts p.file.contents := by
  cases p with
  | refused file range =>
    cases h with
    | refused hrange => exact hrange
  | template s place => exact h.site.range

theorem Stands.located_issues (h : p.Stands script used) : ∀ i ∈ p.contribution.issues,
    i.file = p.file.path ∧ i.location.CutsIn p.file.contents p.range := by
  cases p with
  | refused file range =>
    intro i hi
    rw [List.mem_singleton.1 hi]
    exact ⟨rfl, h.range_cuts.cutsIn_self⟩
  | template s place => exact h.site.located_issues

theorem Stands.located_directives (h : p.Stands script used) : ∀ d ∈ p.contribution.directives,
    d.file = p.file.path ∧ d.location.CutsIn p.file.contents p.range ∧
      d.area.CutsIn p.file.contents p.range := by
  cases p with
  | refused file range => simp [contribution]
  | template s place => exact h.site.located_directives

end Part

/-! ## Parts of a module -/

/-- A woven module is made of parts that stand in its files. -/
theorem weave_parts {reader : ScriptReader} (hreader : reader.Faithful) {env : Environment} {script : SourceFile}
    {companion : Option SourceFile} {m : Module} (h : weaveWith reader env script companion = .ok (some m)) :
    ∃ used, ∃ parts : List Part, (∀ t, used = some t → companion = some t) ∧
      (∀ p ∈ parts, p.Stands script used) ∧
      ofContributions script used (parts.map (·.contribution)) = .ok (some m) := by
  obtain ⟨found, native, outline, hused, hnative, houtline, hmade⟩ := weave_contributions h
  have hall : ∀ c ∈ contributions env script found native (Native.mask native script.contents) outline,
      ∃ p : Part, p.Stands script (found.map (·.1)) ∧ p.contribution = c := fun _ =>
        exists_part hnative hreader houtline
  generalize contributions env script found native (Native.mask native script.contents) outline = cs
    at hmade hall
  obtain ⟨parts, hstands, rfl⟩ : ∃ parts : List Part,
      (∀ p ∈ parts, p.Stands script (found.map (·.1))) ∧ parts.map (·.contribution) = cs := by
    clear hmade
    induction cs with
    | nil => exact ⟨[], by simp, rfl⟩
    | cons c cs ih =>
      obtain ⟨hc, hcs⟩ := List.forall_mem_cons.1 hall
      obtain ⟨p, hp, rfl⟩ := hc
      obtain ⟨parts, hparts, rfl⟩ := ih hcs
      exact ⟨p :: parts, List.forall_mem_cons.2 ⟨hp, hparts⟩, rfl⟩
  exact ⟨_, parts, hused, hstands, hmade⟩

/-- A segment that is the code of a template. -/
structure Site.Shown (s : Site) (g : Segment) : Prop where
  file : g.file = s.file.path
  source : g.source = s.range
  code : g.code = s.compiled.code
  mapping : g.mapping = some s.compiled.mapping

/-- The segments with a mapping are those of the templates that are compiled. -/
theorem shown_iff {script : SourceFile} {parts : List Part} {ss : List Segment}
    (h : correlate script 0 0 (replacementsOf (parts.map (·.contribution))) = some ss) :
    (∀ g ∈ ss, g.mapping.isSome = true → ∃ s place, .template s place ∈ parts ∧ s.Shown g) ∧
      ∀ s place, .template s place ∈ parts → ∃ g ∈ ss, s.Shown g := by
  have hmem (r : Replacement) : r ∈ replacementsOf (parts.map (·.contribution)) ↔
      ∃ p ∈ parts, p.contribution.replacement = some r := by
    rw [(perm_replacementsOf _).mem_iff, List.filterMap_map, List.mem_filterMap]
    rfl
  refine ⟨fun g hg hmapping => ?_, fun s place hs => ?_⟩
  · obtain ⟨tree, htree⟩ := Option.isSome_iff_exists.1 hmapping
    obtain ⟨r, hr, start, rfl⟩ := mem_correlate htree h hg
    obtain ⟨p, hp, hr⟩ := (hmem r).1 hr
    cases p with
    | refused file range => cases hr
    | template s place =>
      cases hr
      exact ⟨s, place, hp, rfl, rfl, rfl, rfl⟩
  · obtain ⟨start, hg⟩ := exists_segment h ((hmem _).2 ⟨_, hs, rfl⟩)
    exact ⟨_, hg, rfl, rfl, rfl, rfl⟩

/-- Every issue and every directive of a woven module is shown in the script or in its companion, between
characters, and inside the embedding of the template that it comes from. A text that is no template makes one
issue, where its reader stopped, no directives, and the code of no text. -/
theorem reports_located {reader : ScriptReader} (hreader : reader.Faithful) {env : Environment} {script : SourceFile}
    {companion : Option SourceFile} {m : Module} (h : weaveWith reader env script companion = .ok (some m)) :
    ∃ parts : List Part,
      m.issues = parts.flatMap (·.contribution.issues) ∧
      m.directives = parts.flatMap (·.contribution.directives) ∧
      (∀ g ∈ m.segments, g.mapping.isSome = true → ∃ s place, .template s place ∈ parts ∧ s.Shown g) ∧
      (∀ s place, .template s place ∈ parts → ∃ g ∈ m.segments, s.Shown g) ∧
      ∀ p ∈ parts, p.file ∈ script :: companion.toList ∧ p.range.Cuts p.file.contents ∧
        (∀ i ∈ p.contribution.issues,
          i.file = p.file.path ∧ i.location.CutsIn p.file.contents p.range) ∧
        (∀ d ∈ p.contribution.directives, d.file = p.file.path ∧
          d.location.CutsIn p.file.contents p.range ∧ d.area.CutsIn p.file.contents p.range) ∧
        ∀ s place, p = .template s place → s.Stands ∧ ∀ text e,
          s.content.slice s.file.contents = some text → Template.parse text = .error e →
            (∃ i, p.contribution.issues = [i] ∧ i.kind = .templateSyntax ∧ i.cause = .unreadable e.fault ∧
              i.location = e.span.shift s.content.start) ∧
            p.contribution.directives = [] ∧
            s.compiled.code = (Compiled.ofTemplate "" (.empty 0) s.options).code := by
  obtain ⟨used, parts, hused, hstands, hmade⟩ := weave_parts hreader h
  obtain ⟨hsegments, -, hissues, hdirectives⟩ := ofContributions_eq_some hmade
  obtain ⟨hshown, hshows⟩ := shown_iff hsegments
  rw [List.flatMap_map] at hissues hdirectives
  refine ⟨parts, hissues, hdirectives, hshown, hshows, fun p hp => ?_⟩
  have hp := hstands p hp
  refine ⟨?_, hp.range_cuts, hp.located_issues, hp.located_directives, ?_⟩
  · rcases List.mem_cons.1 hp.file_mem with hfile | hfile
    · exact List.mem_cons.2 (.inl hfile)
    · exact List.mem_cons_of_mem _ (Option.mem_toList.2 (hused _ (Option.mem_toList.1 hfile)))
  · rintro s place rfl
    have hs := hp.site
    refine ⟨hs, fun text e htext he => ?_⟩
    obtain ⟨hone, hnone, hcode⟩ := hs.unreadable htext he
    refine ⟨⟨_, hone, rfl, rfl, rfl⟩, ?_, hcode⟩
    rw [Part.contribution, hnone, List.map_nil]

theorem reports_located_unclosed :
    let script : SourceFile := ⟨"a.gts", "let a = <template>é\x7b\x7b#if\x7d\x7d</template>;"⟩
    ∃ m i, weaveWith .plain { native := some { typesModule := "types" } } script none = .ok (some m) ∧
      m.issues = [i] ∧ i.kind = .templateSyntax ∧ i.file = "a.gts" ∧ i.location = ⟨20, 27⟩ ∧
      i.location.CutsIn script.contents ⟨8, 38⟩ ∧ m.directives = [] := by
  intro script
  have hweave : ((weaveWith .plain { native := some { typesModule := "types" } } script none).toOption.join.any
      fun m => decide (m.issues = [⟨.unreadable (.unclosedBlock "if"), "a.gts", ⟨20, 27⟩⟩] ∧
        m.directives = [] ∧ ∀ g ∈ m.segments, g.mapping.isSome = true → g.source = ⟨8, 38⟩)) = true := by
    decide +kernel
  obtain ⟨m, hm, hcheck⟩ := exists_of_any hweave
  obtain ⟨hissues, hdirectives, hsource⟩ := of_decide_eq_true hcheck
  obtain ⟨parts, hall, -, -, hshown, hparts⟩ := reports_located ScriptReader.faithful_plain hm
  refine ⟨m, _, hm, hissues, rfl, rfl, rfl, ?_, hdirectives⟩
  have hi := List.mem_singleton_self (⟨.unreadable (.unclosedBlock "if"), "a.gts", ⟨20, 27⟩⟩ : Issue)
  rw [← hissues, hall] at hi
  obtain ⟨p, hp, hi⟩ := List.mem_flatMap.1 hi
  obtain ⟨hfile, -, hlocated, -⟩ := hparts p hp
  have hplace := (hlocated _ hi).2
  cases p with
  | refused file range => cases List.mem_singleton.1 hi
  | template s place =>
    obtain ⟨g, hg, hshown⟩ := hshown s place hp
    have hrange : s.range = ⟨8, 38⟩ := by
      rw [← hshown.source]
      exact hsource g hg (by rw [hshown.mapping]; rfl)
    rw [show (Part.template s place).range = ⟨8, 38⟩ from hrange, List.mem_singleton.1 hfile] at hplace
    exact hplace

end Module

end TypedTemplate
