/-
What weaving gives, for any reader whose literals stand in what it reads. Every template that is found is a stretch of
the script, cut between characters also where native templates were masked before it was read; so weaving cuts no
character, a module is made of parts that stand in its files, and each of its segments stands for a stretch of one of
them: as it is, or through a mapping between that stretch and the code of the segment.
-/
import TypedTemplate.Proofs.Mapping.Spans
import TypedTemplate.Proofs.Module.Position
import TypedTemplate.Proofs.Script.Embedded
import TypedTemplate.Proofs.Script.Native

namespace TypedTemplate

open Text
open TypedTemplate.Span (In)

namespace Module

open Script

variable {reader : ScriptReader} {native : List NativeTemplate} {content : Span} {script : SourceFile}
  {env : Environment} {outline : Outline} {m : Module}

/-! ## Templates in the script -/

/-- A template in a text: its range and its content are stretches of the text, and the content lies in the
range, after what opens it. -/
structure Delimited (source : String) (range content : Span) : Prop where
  range_cuts : range.Cuts source
  content_cuts : content.Cuts source
  opened : range.start < content.start
  content_in : content.In range.start range.stop

/-- A literal with a tag: its range goes from the tag to the backtick that closes it, and its content stands
between its backticks. -/
inductive Quoted (text : String) : Span → Span → Prop
  | intro {a q p : Cursor} {x : Char} : a.On text → a.rest.head? = some x → x ≠ ' ' → a.Reaches q →
      q.rest.head? = some '`' →
      (q.advance 1).Reaches p → p.rest.head? = some '`' →
      Quoted text ⟨a.pos, (p.advance 1).pos⟩ ⟨(q.advance 1).pos, p.pos⟩

theorem pos_advance_backtick {c : Cursor} (h : c.rest.head? = some '`') : (c.advance 1).pos = c.pos + 1 := by
  obtain ⟨rest, hrest⟩ := List.head?_eq_some_iff.1 h
  have hone : '`'.utf8Size = 1 := by decide
  simp [Cursor.advance, hrest, hone]

/-- The content is taken to start after the first backtick after the tag, wherever the literal opens. -/
theorem quoted_literalContent {text : String} {a b q p : Cursor} {x : Char} (ha : a.On text)
    (hx : a.rest.head? = some x) (hspace : x ≠ ' ') (hb : a.Reaches b) (hq : b.Reaches q)
    (hquote : q.rest.head? = some '`') (hp : (q.advance 1).Reaches p) (hclose : p.rest.head? = some '`') :
    Quoted text ⟨a.pos, (p.advance 1).pos⟩ (literalContent text b.pos ⟨a.pos, (p.advance 1).pos⟩) := by
  have hopen : q.Passes "`" (q.advance 1) := by
    obtain ⟨rest, hrest⟩ := List.head?_eq_some_iff.1 hquote
    exact Cursor.passes_of_rest hrest rfl
  obtain ⟨gap, hgap⟩ := hq.passes
  obtain ⟨inside, hinside⟩ := (hp.trans (p.reaches_advance 1)).passes
  have hpasses := hgap.trans (hopen.trans hinside)
  have hslice := (ha.reaches hb).slice hpasses
  have htext : (gap ++ ("`" ++ inside)).toList = gap.toList ++ '`' :: inside.toList := by simp
  obtain ⟨front, after, hfront, hnot⟩ :=
    List.eq_append_cons_of_mem (show '`' ∈ gap.toList ++ '`' :: inside.toList by simp)
  have htake : (gap.toList ++ '`' :: inside.toList).takeWhile (· != '`') = front := by
    rw [hfront, List.takeWhile_append_of_pos fun x hx => bne_iff_ne.2 (ne_of_mem_of_not_mem hx hnot),
      List.takeWhile_cons_of_neg (by decide), List.append_nil]
  -- the place of the first backtick, which is not after the one that opens the literal
  let f : Cursor := ⟨b.pos + byteLength front, '`' :: (after ++ (p.advance 1).rest)⟩
  have hrest : b.rest = front ++ f.rest := by rw [hpasses.rest, htext, hfront, List.append_assoc]; rfl
  have hbf : b.Reaches f := ⟨front, hrest, rfl⟩
  have hfq : f.Reaches q := by
    have hle := byteLength_takeWhile_le (p := (· != '`')) (c := '`') (by decide) inside.toList gap.toList
    rw [htake] at hle
    obtain ⟨between, hbetween, hf⟩ := exists_between (hrest.symm.trans hgap.rest) hle
    refine ⟨between, hf, ?_⟩
    rw [hgap.pos, size_eq_byteLength, hbetween, byteLength_append, Nat.add_assoc]
  have hfp := hfq.advance_one.trans hp
  have hcontent : literalContent text b.pos ⟨a.pos, (p.advance 1).pos⟩ = ⟨(f.advance 1).pos, p.pos⟩ := by
    have hle := hfp.pos_le
    have hpos : (f.advance 1).pos = b.pos + byteLength front + 1 := pos_advance_backtick rfl
    have hlast := pos_advance_backtick hclose
    simp only [literalContent, Span.slice, hslice, Option.getD_some, htext, htake]
    rw [hpos, hlast, Nat.add_sub_cancel, max_eq_left (by omega)]
  rw [hcontent]
  exact .intro ha hx hspace (hb.trans hbf) rfl hfp hclose

mutual

/-- Every template among literals is one of them. -/
theorem templatesOf_quoted {text : String} {dialect? : String → Option Dialect} :
    ∀ {e : Embedded}, e.Lies text → ∀ t ∈ templatesOf text dialect? e, Quoted text t.range t.content
  | .tagged tag tagStop range interpolated inside, h, t, ht => by
    obtain ⟨ha, hx, hspace, hb, hq, hquote, hp, hclose, hinside⟩ := h
    rw [templatesOf] at ht
    split at ht
    · rw [List.mem_singleton.1 ht]
      exact quoted_literalContent ha hx hspace hb hq hquote hp hclose
    · exact templatesOfAll_quoted hinside t ht
  | .staticValue key (.tagged tag tagStop range interpolated inside) decorators, h, t, ht => by
    cases h with
    | staticValue hkey hvalue hdecorators =>
      obtain ⟨ha, hx, hspace, hb, hq, hquote, hp, hclose, hinside⟩ := hvalue
      rw [templatesOf] at ht
      split at ht
      · rw [List.mem_singleton.1 ht]
        exact quoted_literalContent ha hx hspace hb hq hquote hp hclose
      · rcases List.mem_append.1 ht with ht | ht
        · rcases List.mem_append.1 ht with ht | ht
          · exact templatesOfAll_quoted hkey t ht
          · exact templatesOfAll_quoted hinside t ht
        · exact templatesOfAll_quoted hdecorators t ht
  | .staticValue key (.staticValue key' value decorators') decorators, h, t, ht => by
    cases h with
    | staticValue hkey hvalue hdecorators =>
      rw [templatesOf] at ht
      · rcases List.mem_append.1 ht with ht | ht
        · rcases List.mem_append.1 ht with ht | ht
          · exact templatesOfAll_quoted hkey t ht
          · exact templatesOf_quoted hvalue t ht
        · exact templatesOfAll_quoted hdecorators t ht
      · nofun

theorem templatesOfAll_quoted {text : String} {dialect? : String → Option Dialect} :
    ∀ {es : List Embedded}, (∀ e ∈ es, e.Lies text) → ∀ t ∈ templatesOfAll text dialect? es,
      Quoted text t.range t.content
  | [], _, _, ht => by cases ht
  | e :: es, h, t, ht => by
    rw [templatesOfAll] at ht
    rcases List.mem_append.1 ht with ht | ht
    · exact templatesOf_quoted (h e List.mem_cons_self) t ht
    · exact templatesOfAll_quoted (fun e' he => h e' (List.mem_cons_of_mem e he)) t ht

end

theorem delimited_of_stands {source : String} {t : NativeTemplate} (h : Native.Stands source.toList t) :
    Delimited source t.range t.content :=
  ⟨h.cuts.1, h.cuts.2, h.opened, h.inside.2⟩

/-- A literal that is found with the native templates masked is a stretch of the script itself: it starts with a
character that is no space, and its backticks are none. -/
theorem Quoted.delimited {source : String} {range : Span} (hnative : ∀ t ∈ native, Native.Stands source.toList t)
    (h : Quoted (Native.mask native source) range content) : Delimited source range content := by
  obtain ⟨ha, hx, hspace, hq, hquote, hp, hclose⟩ := h
  rename_i a q p x
  have hqon := ha.reaches hq
  have hpon := hqon.reaches ((q.reaches_advance 1).trans hp)
  have hstart := (Native.boundary_of_mask hnative ha hx hspace).1
  have hopen := (Native.boundary_of_mask hnative hqon hquote (by decide)).2
  obtain ⟨hlast, hstop⟩ := Native.boundary_of_mask hnative hpon hclose (by decide)
  have haq := hq.pos_le
  have hqp := hp.pos_le
  have hq1 := pos_advance_backtick hquote
  have hp1 := pos_advance_backtick hclose
  refine ⟨Span.cuts_iff.2 ⟨?_, hstart, hstop⟩, Span.cuts_iff.2 ⟨hqp, hopen, hlast⟩, ?_, ?_, hqp, ?_⟩ <;>
    dsimp only <;> omega

/-! ## Parts -/

/-- A template in a file: the stretch that it is embedded in, what is read as a template there, and how it is
compiled. -/
structure Site where
  file : SourceFile
  range : Span
  content : Span
  options : CompileOptions

/-- The code of a template, with spans that count from the start of its embedding. -/
def Site.compiled (s : Site) : Compiled :=
  .ofTemplate ((s.range.slice s.file.contents).getD "")
    ⟨s.content.start - s.range.start, s.content.stop - s.range.start⟩ s.options

/-- A template in a file of its own: all of the file. -/
def Site.whole (template : SourceFile) (o : CompileOptions) : Site :=
  ⟨template, .ofText template.contents, .ofText template.contents, o⟩

theorem Site.compiled_whole (template : SourceFile) (o : CompileOptions) :
    (whole template o).compiled = .ofTemplate template.contents (.ofText template.contents) o := by
  have hslice : (Span.ofText template.contents).slice template.contents = some template.contents :=
    slice_self template.contents
  simp only [compiled, whole, hslice, Option.getD_some]
  rfl

/-- What a template makes of a module: a literal with expressions is refused, and any other template is compiled
and its code put into the script at a place. -/
inductive Part where
  | refused (file : SourceFile) (range : Span)
  | template (site : Site) (place : Span)

namespace Part

def file : Part → SourceFile
  | .refused file _ => file
  | .template s _ => s.file

def range : Part → Span
  | .refused _ range => range
  | .template s _ => s.range

def contribution : Part → Contribution
  | .refused file range => { issues := [⟨.interpolated, file.path, range⟩] }
  | .template s place =>
    { replacement := some ⟨place, s.file.path, s.range, s.compiled⟩
      issues := s.compiled.issues.map (·.shift s.range.start)
      directives := s.compiled.directives.map (·.shift s.range.start) }

/-- Where a part can stand: as a literal or a template in the script, or as the companion. -/
inductive Stands (script : SourceFile) (used : Option SourceFile) : Part → Prop
  | refused {range : Span} : range.Cuts script.contents → Stands script used (.refused script range)
  | own {range content : Span} {o : CompileOptions} : Delimited script.contents range content →
      o.file = script.path → Stands script used (.template ⟨script, range, content, o⟩ range)
  | companion {template : SourceFile} {o : CompileOptions} (place : Nat) : used = some template →
      o.file = template.path → Stands script used (.template (.whole template o) (.empty place))

end Part

theorem exists_options (imports : List ImportedName) (file : String) (dialect : Dialect) (w : Wrapper) :
    ∃ o : CompileOptions, o.file = file ∧ ∀ embedding content,
      compile imports file embedding content dialect w = .ofTemplate embedding content o := by
  refine ⟨_, ?_, fun _ _ => rfl⟩
  rfl

theorem exists_part_embed {range : Span} (h : Delimited script.contents range content) (used : Option SourceFile)
    (imports : List ImportedName) (dialect : Dialect) (w : Wrapper) :
    ∃ p : Part, p.Stands script used ∧ p.contribution = embed imports script range content dialect w := by
  obtain ⟨o, hfile, hcompile⟩ := exists_options imports script.path dialect w
  refine ⟨_, .own h hfile, ?_⟩
  simp only [embed, hcompile]
  rfl

theorem exists_part_attach (script template : SourceFile) (imports : List ImportedName) (place : Nat)
    (dialect : Dialect) (w : Wrapper) :
    ∃ p : Part, p.Stands script (some template) ∧
      p.contribution = attach imports template place dialect w := by
  obtain ⟨o, hfile, hcompile⟩ := exists_options imports template.path dialect w
  refine ⟨_, .companion place rfl hfile, ?_⟩
  -- the template starts with its file, so nothing moves
  have hissue (i : Issue) : i.shift (Site.whole template o).range.start = i := rfl
  have hdirective (d : Directive) : d.shift (Site.whole template o).range.start = d := rfl
  simp only [Part.contribution, Site.compiled_whole, attach, hcompile, hissue, hdirective, List.map_id']
  rfl

/-! ## Replacements -/

/-- What a replacement comes from: a template of the script, or the companion. -/
inductive Replacement.Origin (script : SourceFile) (companion : Option SourceFile) :
    Replacement → Prop
  | own {range content : Span} (o : CompileOptions) :
      Delimited script.contents range content →
      Origin script companion (.own script range content o)
  | companion {template : SourceFile} (place : Nat) (o : CompileOptions) :
      companion = some template →
      Origin script companion ⟨.empty place, template.path, .ofText template.contents,
        .ofTemplate template.contents (.ofText template.contents) o⟩

theorem nativeTemplates_stand (h : nativeTemplates env script = .ok native) :
    ∀ t ∈ native, Native.Stands script.contents.toList t := by
  unfold nativeTemplates at h
  split at h
  · cases h
    exact nofun
  · split at h
    · rename_i hscan
      cases h
      exact (Native.scan_stands hscan).1
    · cases h

/-- The directives of a contribution are those of its template, in the file of the template and from where
the template stands. -/
structure Contribution.Local (c : Contribution) : Prop where
  of_some : ∀ r, c.replacement = some r → (∀ d ∈ r.compiled.directives, d.file = r.file) ∧
    c.directives = r.compiled.directives.map (·.shift r.source.start)
  of_none : c.replacement = none → c.directives = []

theorem file_of_mem_directives {embedding : String} {o : CompileOptions} :
    ∀ d ∈ (Compiled.ofTemplate embedding content o).directives, d.file = o.file := by
  intro d hd
  obtain ⟨l, -, rfl⟩ := List.mem_map.1 hd
  rfl

section

variable {companion : Option (SourceFile × CompanionRules)} {c : Contribution}
  (hnative : ∀ t ∈ native, Native.Stands script.contents.toList t)
  (hreader : reader.Faithful) (houtline : reader (Native.mask native script.contents) = some outline)
  (hc : c ∈ contributions env script companion native (Native.mask native script.contents) outline)
include hnative hreader houtline hc

/-- Every contribution is that of a part. -/
theorem exists_part : ∃ p : Part, p.Stands script (companion.map (·.1)) ∧ p.contribution = c := by
  unfold contributions at hc
  dsimp only at hc
  rw [List.mem_append, List.mem_append, List.mem_map] at hc
  rcases hc with (⟨t, ht, rfl⟩ | hc) | hc
  · have hd := (templatesOfAll_quoted (hreader houtline) t ht).delimited hnative
    unfold ofTagged
    split
    · exact ⟨_, .refused hd.range_cuts, rfl⟩
    · exact exists_part_embed hd _ _ _ _
  · cases henv : env.native with
    | none =>
      rw [henv] at hc
      cases hc
    | some dialect =>
      rw [henv] at hc
      obtain ⟨t, ht, rfl⟩ := List.mem_map.1 hc
      exact exists_part_embed (delimited_of_stands (hnative t ht)) _ _ _ _
  · cases companion with
    | none => cases hc
    | some found =>
      rw [List.mem_singleton.1 hc]
      unfold ofCompanion
      split
      · exact exists_part_attach script found.1 _ _ _ _
      · exact exists_part_attach script found.1 _ _ _ _

theorem origin_of_mem_contributions {r : Replacement} (hr : c.replacement = some r) :
    r.Origin script (companion.map (·.1)) := by
  obtain ⟨p, hp, rfl⟩ := exists_part hnative hreader houtline hc
  cases hp with
  | refused => cases hr
  | @own range content o hd =>
    cases hr
    exact .own o hd
  | @companion template o place hused =>
    cases hr
    rw [Site.compiled_whole]
    exact .companion place o hused

theorem local_of_mem_contributions : c.Local := by
  have htemplate {s : Site} (place : Span) (hfile : s.options.file = s.file.path) :
      (Part.template s place).contribution.Local := by
    refine ⟨?_, fun h => by cases h⟩
    rintro r ⟨⟩
    exact ⟨fun d hd => (file_of_mem_directives d hd).trans hfile, rfl⟩
  obtain ⟨p, hp, rfl⟩ := exists_part hnative hreader houtline hc
  cases hp with
  | refused =>
    refine ⟨?_, fun _ => rfl⟩
    rintro r ⟨⟩
  | own _ hfile => exact htemplate _ hfile
  | companion place _ hfile => exact htemplate _ hfile

end

/-- What contributions make: their replacements spliced into the script, with all that they say. -/
theorem ofContributions_eq_some {used : Option SourceFile} {parts : List Contribution}
    (h : ofContributions script used parts = .ok (some m)) :
    correlate script 0 0 (replacementsOf parts) = some m.segments ∧ m.sources = sourcesOf script used ∧
      m.issues = parts.flatMap (·.issues) ∧ m.directives = parts.flatMap (·.directives) := by
  unfold ofContributions at h
  dsimp only at h
  split at h
  · cases h
  · split at h
    · cases h
    · rename_i segments hsegments
      cases h
      exact ⟨hsegments, rfl, rfl, rfl⟩

/-- Weaving as far as the script is read: something is refused, there is nothing to weave, or the templates of the
script and the companion, if it is woven with one, contribute what is made into a module. -/
theorem weaveWith_cases (reader : ScriptReader) (env : Environment) (script : SourceFile)
    (companion : Option SourceFile) :
    (∃ e, weaveWith reader env script companion = .error (.refused e)) ∨
    weaveWith reader env script companion = .ok none ∨
    ∃ found native outline, (∀ t, found.map (·.1) = some t → companion = some t) ∧
      (∀ t ∈ native, Native.Stands script.contents.toList t) ∧
      reader (Native.mask native script.contents) = some outline ∧
      weaveWith reader env script companion = ofContributions script (found.map (·.1))
        (contributions env script found native (Native.mask native script.contents) outline) := by
  unfold weaveWith
  generalize hfound : (companion.bind fun template => env.companion.map fun rules =>
    (template, rules)) = found
  -- without rules for companions the companion is left out
  have hused : ∀ t, found.map (·.1) = some t → companion = some t := by
    rintro t ht
    rw [← hfound] at ht
    obtain ⟨⟨template, rules⟩, hfound, rfl⟩ := Option.map_eq_some_iff.1 ht
    obtain ⟨template', hcompanion, hrules⟩ := Option.bind_eq_some_iff.1 hfound
    obtain ⟨rules', -, heq⟩ := Option.map_eq_some_iff.1 hrules
    cases heq
    exact hcompanion
  cases hnative : nativeTemplates env script with
  | error e => exact .inl ⟨e, rfl⟩
  | ok native =>
    dsimp only [bind, Except.bind, Except.mapError]
    split
    · exact .inr (.inl rfl)
    · cases houtline : reader (Native.mask native script.contents) with
      | none => exact .inl ⟨_, rfl⟩
      | some outline =>
        exact .inr (.inr ⟨found, native, outline, hused, nativeTemplates_stand hnative, houtline, rfl⟩)

/-- A woven module is made of what the templates of a script contribute, and of the companion it is woven
with, if with any. -/
theorem weave_contributions {companion : Option SourceFile}
    (h : weaveWith reader env script companion = .ok (some m)) :
    ∃ found native outline, (∀ t, found.map (·.1) = some t → companion = some t) ∧
      (∀ t ∈ native, Native.Stands script.contents.toList t) ∧
      reader (Native.mask native script.contents) = some outline ∧
      ofContributions script (found.map (·.1)) (contributions env script found native
        (Native.mask native script.contents) outline) = .ok (some m) := by
  rcases weaveWith_cases reader env script companion with
    ⟨e, he⟩ | hnone | ⟨found, native, outline, hused, hnative, houtline, hmade⟩
  · rw [he] at h
    cases h
  · rw [hnone] at h
    cases h
  · exact ⟨found, native, outline, hused, hnative, houtline, hmade ▸ h⟩

/-! ### Replacements cut no character -/

theorem Delimited.fits {range : Span} (h : Delimited script.contents range content) (o : CompileOptions) :
    (Replacement.own script range content o).Fits script := by
  obtain ⟨hordered, hstart, hstop⟩ := Span.cuts_iff.1 h.range_cuts
  exact ⟨hordered, hstart, hstop⟩

/-- A companion is put before a brace of the script, or at its end. -/
theorem boundary_companionPlace (hnative : ∀ t ∈ native, Native.Stands script.contents.toList t)
    (hcloses : reader.ClosesClass) (houtline : reader (Native.mask native script.contents) = some outline) :
    Boundary script.contents (companionPlace outline script) := by
  unfold companionPlace
  cases hclose : outline.defaultClassClose? with
  | none => exact boundary_size _
  | some close =>
    obtain ⟨c, hc, hbrace, rfl⟩ := hcloses houtline hclose
    exact (Native.boundary_of_mask hnative hc hbrace (by decide)).1

theorem fits_of_mem_contributions {companion : Option (SourceFile × CompanionRules)} {c : Contribution}
    {r : Replacement} (hnative : ∀ t ∈ native, Native.Stands script.contents.toList t) (hreader : reader.Faithful)
    (hcloses : reader.ClosesClass) (houtline : reader (Native.mask native script.contents) = some outline)
    (hc : c ∈ contributions env script companion native (Native.mask native script.contents) outline)
    (hr : c.replacement = some r) : r.Fits script := by
  -- without its companion a script contributes its own templates only
  have hown (hc : c ∈ contributions env script none native (Native.mask native script.contents) outline) :
      r.Fits script := by
    cases origin_of_mem_contributions hnative hreader houtline hc hr with
    | own o hd => exact hd.fits o
    | companion place o hused => cases hused
  cases companion with
  | none => exact hown hc
  | some found =>
    rw [contributions_companion] at hc
    rcases List.mem_append.1 hc with hc | hc
    · exact hown hc
    · obtain ⟨o, hcompanion⟩ := replacement_ofCompanion outline script found.1 found.2.dialect
      rw [List.mem_singleton.1 hc, hcompanion] at hr
      cases hr
      have hplace := boundary_companionPlace hnative hcloses houtline
      exact ⟨le_rfl, hplace, hplace⟩

/-- Weaving takes no template from inside a character and puts none there. -/
theorem weaveWith_ne_cut (hreader : reader.Faithful) (hcloses : reader.ClosesClass) (env : Environment)
    (script : SourceFile) (companion : Option SourceFile) : weaveWith reader env script companion ≠ .error .cut := by
  rcases weaveWith_cases reader env script companion with
    ⟨e, he⟩ | hnone | ⟨found, native, outline, -, hnative, houtline, hmade⟩
  · rw [he]
    rintro ⟨⟩
  · rw [hnone]
    rintro ⟨⟩
  · have hfits : ∀ r ∈ replacementsOf
        (contributions env script found native (Native.mask native script.contents) outline), r.Fits script := by
      intro r hr
      obtain ⟨c, hc, hr⟩ := List.mem_filterMap.1 ((perm_replacementsOf _).mem_iff.1 hr)
      exact fits_of_mem_contributions hnative hreader hcloses houtline hc hr
    obtain ⟨ss, hss⟩ := exists_correlate hfits (boundary_zero _) 0
    rw [hmade, ofContributions, hss]
    split <;> rintro ⟨⟩

/-- A woven module comes from splicing templates of the script and of the companion it is woven with, if
with any, into the script; their directives are the directives of the module. -/
theorem weave_eq_ok {companion : Option SourceFile} (hreader : reader.Faithful)
    (h : weaveWith reader env script companion = .ok (some m)) :
    ∃ used rs, (∀ t, used = some t → companion = some t) ∧ (∀ r ∈ rs, r.Origin script used) ∧
      correlate script 0 0 rs = some m.segments ∧ m.sources = sourcesOf script used ∧
      (∀ r ∈ rs, ∀ d ∈ r.compiled.directives,
        d.file = r.file ∧ d.shift r.source.start ∈ m.directives) ∧
      ∀ directive ∈ m.directives, ∃ r ∈ rs, ∃ d ∈ r.compiled.directives,
        directive = d.shift r.source.start := by
  obtain ⟨found, native, outline, hused, hnative, houtline, hmade⟩ := weave_contributions h
  obtain ⟨hsegments, hsources, -, hdirectives⟩ := ofContributions_eq_some hmade
  refine ⟨_, _, hused, fun r hr => ?_, hsegments, hsources, fun r hr d hd => ?_, fun directive hd => ?_⟩
  · obtain ⟨c, hc, hr⟩ := List.mem_filterMap.1 ((perm_replacementsOf _).mem_iff.1 hr)
    exact origin_of_mem_contributions hnative hreader houtline hc hr
  · obtain ⟨c, hc, hr⟩ := List.mem_filterMap.1 ((perm_replacementsOf _).mem_iff.1 hr)
    obtain ⟨hfile, hlocal⟩ := (local_of_mem_contributions hnative hreader houtline hc).of_some r hr
    rw [hdirectives]
    refine ⟨hfile d hd, List.mem_flatMap.2 ⟨c, hc, ?_⟩⟩
    rw [hlocal]
    exact List.mem_map_of_mem hd
  · rw [hdirectives] at hd
    obtain ⟨c, hc, hd⟩ := List.mem_flatMap.1 hd
    have hlocal := local_of_mem_contributions hnative hreader houtline hc
    cases hr : c.replacement with
    | none =>
      rw [hlocal.of_none hr] at hd
      cases hd
    | some r =>
      rw [(hlocal.of_some r hr).2] at hd
      obtain ⟨d, hd', rfl⟩ := List.mem_map.1 hd
      exact ⟨r, (perm_replacementsOf _).mem_iff.2 (List.mem_filterMap.2 ⟨c, hc, hr⟩), d, hd', rfl⟩

end Module

/-! ## Segments -/

/-- A segment that stands for a stretch of a text: without a mapping it is as long as the stretch, else
its mapping is between the stretch and its code. -/
structure Segment.StandsFor (s : Segment) (text : String) : Prop where
  source_in : s.source.In 0 (size text)
  code_ordered : s.generated.start ≤ s.generated.stop
  plain : s.mapping = none → s.source.length = s.generated.length
  mapped : ∀ tree, s.mapping = some tree → tree.Spans s.source.length s.generated.length

namespace Module

variable {reader : ScriptReader} {script : SourceFile} {used companion : Option SourceFile} {env : Environment}
  {m : Module}

theorem mem_correlate {s : Segment} {tree : Mapping.Tree} (htree : s.mapping = some tree) :
    ∀ {rs : List Replacement} {pos start : Nat} {ss : List Segment},
      correlate script pos start rs = some ss → s ∈ ss → ∃ r ∈ rs, ∃ start, s = r.segment start
  | [], _, _, _, h, hs => by
    rcases passThrough_cases h with ⟨-, rfl⟩ | ⟨code, -, -, rfl⟩
    · cases hs
    · rw [List.mem_singleton.1 hs] at htree
      cases htree
  | r :: rs, _, _, _, h, hs => by
    obtain ⟨before, after, hbefore, hafter, rfl⟩ := correlate_cons h
    rcases List.mem_append.1 hs with hs | hs
    · rcases passThrough_cases hbefore with ⟨-, rfl⟩ | ⟨code, -, -, rfl⟩
      · cases hs
      · rw [List.mem_singleton.1 hs] at htree
        cases htree
    · rcases List.mem_cons.1 hs with rfl | hs
      · exact ⟨r, List.mem_cons_self, _, rfl⟩
      · obtain ⟨r', hr', hs⟩ := mem_correlate htree hafter hs
        exact ⟨r', List.mem_cons_of_mem r hr', hs⟩

/-- Every replacement has its segment. -/
theorem exists_segment {r : Replacement} {rs : List Replacement} {pos start : Nat} {ss : List Segment}
    (h : correlate script pos start rs = some ss) (hr : r ∈ rs) : ∃ start, r.segment start ∈ ss := by
  induction rs generalizing pos start ss with
  | nil => cases hr
  | cons r' rs ih =>
    obtain ⟨before, after, -, hafter, rfl⟩ := correlate_cons h
    rcases List.mem_cons.1 hr with rfl | hr
    · exact ⟨_, List.mem_append_right _ List.mem_cons_self⟩
    · obtain ⟨start, hmem⟩ := ih hafter hr
      exact ⟨start, List.mem_append_right _ (List.mem_cons_of_mem _ hmem)⟩

theorem standsFor_own {range content : Span} (o : CompileOptions)
    (h : Delimited script.contents range content) (start : Nat) :
    ((Replacement.own script range content o).segment start).StandsFor script.contents := by
  obtain ⟨⟨embedding, hslice⟩, -, hopened, hcontent⟩ := h
  obtain ⟨hstop, hle⟩ := size_of_slice hslice
  have hrange : range.In 0 (size script.contents) := ⟨Nat.zero_le _, by omega, hle⟩
  refine ⟨hrange, Nat.le_add_right _ _, nofun, fun tree htree => ?_⟩
  cases htree
  have hinner : (⟨content.start - range.start, content.stop - range.start⟩ : Span).In 0
      range.length := by
    have := hcontent.ordered
    have := hcontent.upper
    refine ⟨Nat.zero_le _, ?_, ?_⟩ <;> simp only [Span.length] <;> omega
  have hlength : size ((range.slice script.contents).getD "") = range.length := by
    rw [hslice, Option.getD_some, Span.length]
    omega
  have hspans := Compiled.spans_mapping o hinner (.inl hlength)
  simpa only [Replacement.segment, Replacement.own, Span.length, Nat.add_sub_cancel_left] using hspans

theorem standsFor_companion (template : SourceFile) (place start : Nat) (o : CompileOptions) :
    (Replacement.segment ⟨.empty place, template.path, .ofText template.contents,
      .ofTemplate template.contents (.ofText template.contents) o⟩ start).StandsFor
        template.contents := by
  have hwhole : (Span.ofText template.contents).In 0 (size template.contents) :=
    ⟨Nat.zero_le _, Nat.zero_le _, le_rfl⟩
  refine ⟨hwhole, Nat.le_add_right _ _, nofun, fun tree htree => ?_⟩
  cases htree
  have hspans := Compiled.spans_mapping o hwhole (.inl rfl)
  simpa only [Replacement.segment, Span.ofText, Span.length, Nat.add_sub_cancel_left, Nat.sub_zero]
    using hspans

/-- Every segment stands for a stretch of the script or of the companion. -/
theorem standsFor_of_correlate {rs : List Replacement} (h : correlate script 0 0 rs = some m.segments)
    (hrs : ∀ r ∈ rs, r.Origin script used) {s : Segment} (hs : s ∈ m.segments) :
    ∃ f ∈ script :: used.toList, s.file = f.path ∧ s.StandsFor f.contents := by
  obtain ⟨⟨stop, hcontiguous⟩, hverbatim⟩ := contiguous_correlate h
  cases hmapping : s.mapping with
  | none =>
    obtain ⟨hfile, hslice⟩ := hverbatim s hs hmapping
    obtain ⟨hstop, hle⟩ := size_of_slice hslice
    have hcode := (size_of_slice (hcontiguous.slice_contents s hs)).1
    refine ⟨script, List.mem_cons_self, hfile, ⟨Nat.zero_le _, by omega, hle⟩, by omega,
      fun _ => ?_, by rw [hmapping]; nofun⟩
    simp only [Span.length]
    omega
  | some tree =>
    obtain ⟨r, hr, start, rfl⟩ := mem_correlate hmapping h hs
    cases hrs r hr with
    | own o hd => exact ⟨script, List.mem_cons_self, rfl, standsFor_own o hd start⟩
    | @companion template place o hused =>
      exact ⟨template, List.mem_cons_of_mem _ (by rw [hused]; exact List.mem_singleton.2 rfl), rfl,
        standsFor_companion template place start o⟩

/-- A module knows the text of the script and of its companion, if their paths differ. -/
theorem source?_of_mem (hm : m.sources = sourcesOf script used) {f : SourceFile} (hf : f ∈ script :: used.toList) :
    ∃ text, m.source? f.path = some text ∧
      ((∀ t, used = some t → Path.same script.path t.path = false) → text = f.contents) := by
  unfold source?
  rw [hm]
  cases used with
  | none =>
    rw [List.mem_singleton.1 hf]
    simp [sourcesOf, Path.same_self]
  | some template =>
    have hf : f = script ∨ f = template := by simpa using hf
    by_cases hsame : Path.same script.path template.path = true
    · have hfile : Path.same script.path f.path = true := by
        rcases hf with rfl | rfl
        · exact Path.same_self _
        · exact hsame
      refine ⟨template.contents, by simp [sourcesOf, hsame, hfile], fun hdistinct => ?_⟩
      rw [hdistinct template rfl] at hsame
      cases hsame
    · rcases hf with rfl | rfl
      · simp [sourcesOf, hsame, Path.same_self]
      · simp [sourcesOf, hsame, Path.same_self]

/-- What is known of a woven module. -/
structure Woven (m : Module) : Prop where
  contiguous : Contiguous 0 m.segments (size m.contents)
  standsFor : ∀ s ∈ m.segments, ∃ text, s.StandsFor text

theorem Woven.forward (h : m.Woven) : m.Forward := by
  intro s hs
  obtain ⟨text, hstands⟩ := h.standsFor s hs
  exact hstands.source_in.ordered

theorem woven_of_weave (hreader : reader.Faithful) (h : weaveWith reader env script companion = .ok (some m)) :
    m.Woven := by
  obtain ⟨used, rs, -, hrs, hsegments, -⟩ := weave_eq_ok hreader h
  obtain ⟨⟨stop, hcontiguous⟩, -⟩ := contiguous_correlate hsegments
  rw [hcontiguous.stop_eq_size] at hcontiguous
  refine ⟨hcontiguous, fun s hs => ?_⟩
  obtain ⟨f, -, -, hstands⟩ := standsFor_of_correlate hsegments hrs hs
  exact ⟨f.contents, hstands⟩

/-- A module that weaving gives, by a check of it. -/
theorem exists_of_any {ε : Type} {woven : Except ε (Option Module)} {p : Module → Bool}
    (h : woven.toOption.join.any p = true) : ∃ m, woven = .ok (some m) ∧ p m = true := by
  obtain ⟨m, hm, hp⟩ := (Option.any_eq_true _ _).1 h
  refine ⟨m, ?_, hp⟩
  cases woven with
  | error e => cases hm
  | ok found => exact congrArg Except.ok hm

/-- A segment of a woven module stands for a stretch of the text that the module has for its file, unless
a companion has the path of the script. -/
theorem source?_of_weave (hreader : reader.Faithful) (h : weaveWith reader env script companion = .ok (some m))
    {s : Segment} (hs : s ∈ m.segments) :
    ∃ text, m.source? s.file = some text ∧
      ((∀ t, companion = some t → Path.same script.path t.path = false) → s.StandsFor text) := by
  obtain ⟨used, rs, hused, hrs, hsegments, hsources, -⟩ := weave_eq_ok hreader h
  obtain ⟨f, hf, hfile, hstands⟩ := standsFor_of_correlate hsegments hrs hs
  obtain ⟨text, htext, hsame⟩ := source?_of_mem hsources hf
  refine ⟨text, by rw [hfile]; exact htext, fun hdistinct => ?_⟩
  rw [hsame fun t ht => hdistinct t (hused t ht)]
  exact hstands

end Module

end TypedTemplate
