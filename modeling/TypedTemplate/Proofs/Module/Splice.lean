/-
Splicing. The segments of a module stand one after another in its code, whatever the replacements are;
and if every replacement ends before the next one starts, the stretches of the script that are kept and
those that are replaced make up the script, without a gap and without an overlap.
-/
import TypedTemplate.Module.Weave
import TypedTemplate.Proofs.Span
import TypedTemplate.Proofs.Text.Slice

namespace TypedTemplate.Module

open Text Script

variable {hi source stop start : Nat} {script : SourceFile} {ss : List Segment} {r : Replacement}

/-! ## Code without gaps -/

/-- Segments one after another in the code from `lo` to `hi`, each as long as its own code. -/
def Contiguous (lo : Nat) : List Segment → Nat → Prop
  | [], hi => lo = hi
  | s :: ss, hi => s.generated = ⟨lo, lo + size s.code⟩ ∧ Contiguous s.generated.stop ss hi

theorem Contiguous.append {mid : Nat} {bs : List Segment} (hb : Contiguous mid bs hi) :
    ∀ {as : List Segment} {lo : Nat}, Contiguous lo as mid → Contiguous lo (as ++ bs) hi
  | [], _, ha => by
    cases ha
    exact hb
  | _ :: _, _, ⟨hs, ha⟩ => ⟨hs, hb.append ha⟩

theorem Contiguous.stop_eq :
    ∀ {ss : List Segment} {lo : Nat}, Contiguous lo ss hi →
      hi = lo + size (String.join (ss.map (·.code)))
  | [], _, h => by
    cases h
    rfl
  | s :: ss, lo, ⟨hs, h⟩ => by
    have ih := h.stop_eq
    rw [hs] at ih
    rw [List.map_cons, String.join_cons, size_append, ih]
    exact Nat.add_assoc _ _ _

/-- Every segment's range holds its code, in the code of all and what precedes it. -/
theorem Contiguous.slice :
    ∀ {ss : List Segment} {front : String}, Contiguous (size front) ss hi → ∀ s ∈ ss,
      s.generated.slice (front ++ String.join (ss.map (·.code))) = some s.code
  | s :: ss, front, ⟨hs, h⟩, t, ht => by
    rw [List.map_cons, String.join_cons]
    rcases List.mem_cons.1 ht with rfl | ht
    · rw [hs]
      refine slice_eq_some_iff.2 ⟨front.toList, (String.join (ss.map (·.code))).toList, ?_, ?_, rfl⟩
      · simp only [String.toList_append]
      · exact size_eq_byteLength front
    · have hfront : s.generated.stop = size (front ++ s.code) := by rw [hs, size_append]
      rw [hfront] at h
      rw [← String.append_assoc]
      exact h.slice t ht

theorem Contiguous.stop_eq_size {m : Module} (h : Contiguous 0 m.segments hi) : hi = size m.contents := by
  rw [h.stop_eq, Nat.zero_add, contents]

theorem Contiguous.slice_contents {m : Module} (h : Contiguous 0 m.segments hi) :
    ∀ s ∈ m.segments, s.generated.slice m.contents = some s.code := by
  intro s hs
  have hfront : Contiguous (size "") m.segments hi := h
  have hslice := hfront.slice s hs
  rwa [String.empty_append] at hslice

/-- A segment that, without a mapping, is a piece of the script as it stands there. -/
def Verbatim (script : SourceFile) (s : Segment) : Prop :=
  s.mapping = none → s.file = script.path ∧ s.source.slice script.contents = some s.code

theorem passThrough_cases (h : passThrough script source stop start = some ss) :
    (stop ≤ source ∧ ss = []) ∨
      ∃ code, source < stop ∧ Text.slice script.contents source stop = some code ∧
        ss = [⟨script.path, ⟨source, stop⟩, ⟨start, start + (stop - source)⟩, code, none⟩] := by
  unfold passThrough at h
  split at h
  · rename_i hlt
    obtain ⟨code, hcode, rfl⟩ := Option.map_eq_some_iff.1 h
    exact .inr ⟨code, hlt, hcode, rfl⟩
  · rename_i hle
    cases h
    exact .inl ⟨Nat.le_of_not_lt hle, rfl⟩

theorem contiguous_passThrough (h : passThrough script source stop start = some ss) :
    Contiguous start ss (start + (stop - source)) ∧ ∀ s ∈ ss, Verbatim script s := by
  rcases passThrough_cases h with ⟨hle, rfl⟩ | ⟨code, hlt, hcode, rfl⟩
  · refine ⟨?_, by simp⟩
    show start = start + (stop - source)
    omega
  · have hsize := (size_of_slice hcode).1
    have hlength : stop - source = size code := by omega
    refine ⟨⟨by rw [hlength], rfl⟩, fun s hs _ => ?_⟩
    rw [List.mem_singleton.1 hs]
    exact ⟨rfl, hcode⟩

/-- One step of splicing: what is kept before a replacement, the replacement, and the rest. -/
theorem correlate_cons {pos : Nat} {rs : List Replacement} (h : correlate script pos start (r :: rs) = some ss) :
    ∃ before after, passThrough script pos r.range.start start = some before ∧
      correlate script r.range.stop
        (start + (r.range.start - pos) + size r.compiled.code) rs = some after ∧
      ss = before ++ r.segment (start + (r.range.start - pos)) :: after := by
  rw [correlate] at h
  obtain ⟨before, hbefore, h⟩ := Option.bind_eq_some_iff.1 h
  obtain ⟨after, hafter, h⟩ := Option.bind_eq_some_iff.1 h
  cases h
  exact ⟨before, after, hbefore, hafter, rfl⟩

theorem contiguous_correlate {script : SourceFile} :
    ∀ {rs : List Replacement} {pos start : Nat} {ss : List Segment},
      correlate script pos start rs = some ss →
        (∃ stop, Contiguous start ss stop) ∧ ∀ s ∈ ss, Verbatim script s
  | [], pos, start, ss, h => by
    obtain ⟨hc, hv⟩ := contiguous_passThrough h
    exact ⟨⟨_, hc⟩, hv⟩
  | r :: rs, pos, start, ss, h => by
    obtain ⟨before, after, hbefore, hafter, rfl⟩ := correlate_cons h
    obtain ⟨hcb, hvb⟩ := contiguous_passThrough hbefore
    obtain ⟨⟨stop, hca⟩, hva⟩ := contiguous_correlate hafter
    have hrest : Contiguous (start + (r.range.start - pos))
        (r.segment (start + (r.range.start - pos)) :: after) stop := ⟨rfl, hca⟩
    refine ⟨⟨stop, hrest.append hcb⟩, fun s hs => ?_⟩
    rcases List.mem_append.1 hs with hs | hs
    · exact hvb s hs
    · rcases List.mem_cons.1 hs with rfl | hs
      · -- a replacement has a mapping
        intro hnone
        cases hnone
      · exact hva s hs

/-! ## A script in pieces -/

/-- The script from `lo` to `hi` in pieces, in the order of the segments: each segment either keeps a
stretch of the script, or it is the next replacement and stands for the stretch that this one replaces.
Every stretch starts where the one before it stops. -/
inductive Splice (script : SourceFile) : Nat → List Replacement → List Segment → Nat → Prop
  | done {lo : Nat} : Splice script lo [] [] lo
  | kept {hi : Nat} {rs : List Replacement} {s : Segment} {ss : List Segment} :
      s.mapping = none → s.file = script.path → s.source.slice script.contents = some s.code →
      s.source.start < s.source.stop → Splice script s.source.stop rs ss hi →
      Splice script s.source.start rs (s :: ss) hi
  | replaced {hi start : Nat} {r : Replacement} {rs : List Replacement} {ss : List Segment} :
      r.range.start ≤ r.range.stop → Splice script r.range.stop rs ss hi →
      Splice script r.range.start (r :: rs) (r.segment start :: ss) hi

namespace Splice

variable {lo : Nat} {rs : List Replacement}

theorem append {mid : Nat} {rs' : List Replacement} {ss' : List Segment} (h' : Splice script mid rs' ss' hi)
    (h : Splice script lo rs ss mid) : Splice script lo (rs ++ rs') (ss ++ ss') hi := by
  induction h with
  | done => exact h'
  | kept hm hf hc hlt _ ih => exact .kept hm hf hc hlt (ih h')
  | replaced hle _ ih => exact .replaced hle (ih h')

/-- The replacements lie in order in the stretch of the script. -/
theorem inOrder (h : Splice script lo rs ss hi) : Span.InOrder lo (rs.map (·.range)) hi := by
  induction h with
  | done => exact Nat.le_refl _
  | kept _ _ _ hlt _ ih => exact ih.mono hlt.le le_rfl
  | replaced hle _ ih => exact ⟨le_rfl, hle, ih⟩

/-- Around a replacement, what precedes it ends at its start and what follows it begins at its end. -/
theorem split {rs' : List Replacement} {r : Replacement} (h : Splice script lo (rs ++ r :: rs') ss hi) :
    ∃ before start after, ss = before ++ r.segment start :: after ∧
      Splice script lo rs before r.range.start ∧ Splice script r.range.stop rs' after hi := by
  generalize hall : rs ++ r :: rs' = all at h
  induction h generalizing rs with
  | done => cases rs <;> cases hall
  | @kept hi all s ss hm hf hc hlt _ ih =>
    obtain ⟨before, start, after, rfl, hb, ha⟩ := ih hall
    exact ⟨s :: before, start, after, rfl, .kept hm hf hc hlt hb, ha⟩
  | @replaced hi start q all ss hle hrest ih =>
    cases rs with
    | nil =>
      cases hall
      exact ⟨[], start, ss, rfl, .done, hrest⟩
    | cons q' rs =>
      cases hall
      obtain ⟨before, start', after, rfl, hb, ha⟩ := ih rfl
      exact ⟨q.segment start :: before, start', after, rfl, .replaced hle hb, ha⟩

/-- A segment comes from the script or from the file of a replacement. -/
theorem file_eq (h : Splice script lo rs ss hi) (hrs : ∀ r ∈ rs, r.file = script.path) :
    ∀ s ∈ ss, s.file = script.path := by
  induction h with
  | done => simp
  | kept _ hf _ _ _ ih =>
    rintro t (_ | ⟨_, ht⟩)
    · exact hf
    · exact ih hrs t ht
  | replaced _ _ ih =>
    rintro t (_ | ⟨_, ht⟩)
    · exact hrs _ List.mem_cons_self
    · exact ih (fun r hr => hrs r (List.mem_cons_of_mem _ hr)) t ht

end Splice

theorem splice_passThrough (h : passThrough script source stop start = some ss) (hle : source ≤ stop) :
    Splice script source [] ss stop := by
  rcases passThrough_cases h with ⟨hge, rfl⟩ | ⟨code, hlt, hcode, rfl⟩
  · rw [Nat.le_antisymm hle hge]
    exact .done
  · exact .kept (s := ⟨script.path, ⟨source, stop⟩, _, code, none⟩) rfl rfl hcode hlt .done

theorem splice_correlate {script : SourceFile} :
    ∀ {rs : List Replacement} {pos start : Nat} {ss : List Segment},
      correlate script pos start rs = some ss →
        Span.InOrder pos (rs.map (·.range)) (size script.contents) →
          Splice script pos rs ss (size script.contents)
  | [], _, _, _, h, hin => splice_passThrough h hin
  | r :: rs, _, _, _, h, ⟨hpos, hr, hin⟩ => by
    obtain ⟨before, after, hbefore, hafter, rfl⟩ := correlate_cons h
    exact (Splice.replaced hr (splice_correlate hafter hin)).append (splice_passThrough hbefore hpos)

/-! ## Replacements that cut no character -/

/-- A replacement of a stretch of the script between characters. -/
structure Replacement.Fits (script : SourceFile) (r : Replacement) : Prop where
  ordered : r.range.start ≤ r.range.stop
  start : Boundary script.contents r.range.start
  stop : Boundary script.contents r.range.stop

theorem fits_of_ranges {rs : List Replacement} {ranges : List Span} (hrs : rs.map (·.range) = ranges)
    (h : ∀ range ∈ ranges, range.start ≤ range.stop ∧ Boundary script.contents range.start ∧
      Boundary script.contents range.stop) : ∀ r ∈ rs, r.Fits script := by
  intro r hr
  obtain ⟨hordered, hstart, hstop⟩ := h r.range (hrs ▸ List.mem_map_of_mem hr)
  exact ⟨hordered, hstart, hstop⟩

theorem Replacement.Fits.inside (h : r.Fits script) : r.range.In 0 (size script.contents) :=
  ⟨Nat.zero_le _, h.ordered, h.stop.le⟩

theorem exists_passThrough (hsource : Boundary script.contents source) (hstop : Boundary script.contents stop)
    (start : Nat) : ∃ ss, passThrough script source stop start = some ss := by
  unfold passThrough
  split
  · rename_i hlt
    obtain ⟨code, hcode⟩ := exists_slice hsource hstop hlt.le
    exact ⟨_, by rw [hcode]; rfl⟩
  · exact ⟨[], rfl⟩

theorem exists_correlate {script : SourceFile} :
    ∀ {rs : List Replacement}, (∀ r ∈ rs, r.Fits script) →
      ∀ {pos : Nat}, Boundary script.contents pos → ∀ start,
        ∃ ss, correlate script pos start rs = some ss
  | [], _, _, hpos, start => exists_passThrough hpos (boundary_size _) start
  | r :: rs, hrs, pos, hpos, start => by
    have hr := hrs r List.mem_cons_self
    obtain ⟨before, hbefore⟩ := exists_passThrough hpos hr.start start
    obtain ⟨after, hafter⟩ := exists_correlate (fun q hq => hrs q (List.mem_cons_of_mem r hq))
      hr.stop (r.segment (start + (r.range.start - pos))).generated.stop
    exact ⟨before ++ r.segment (start + (r.range.start - pos)) :: after, by
      simp only [correlate, hbefore, hafter, Option.bind_eq_bind, Option.bind_some]⟩

/-- Splicing makes pieces of a script exactly if every replacement ends before the next one starts. -/
theorem splice_iff {rs : List Replacement} (h : correlate script 0 0 rs = some ss) (hrs : ∀ r ∈ rs, r.Fits script) :
    Splice script 0 rs ss (size script.contents) ↔
      rs.Pairwise fun a b => a.range.stop ≤ b.range.start := by
  constructor
  · intro hs
    exact List.pairwise_map.1 hs.inOrder.pairwise
  · intro hp
    refine splice_correlate h (Span.inOrder_of_pairwise (Nat.zero_le _) ?_ (List.pairwise_map.2 hp))
    intro s hs
    obtain ⟨r, hr, rfl⟩ := List.mem_map.1 hs
    exact (hrs r hr).inside

/-! ## The companion -/

/-- The place of a companion: the end of the class that is exported by default, or of the script. -/
def companionPlace (outline : Outline) (script : SourceFile) : Nat :=
  outline.defaultClassClose?.getD (size script.contents)

theorem replacement_ofCompanion (outline : Outline) (script template : SourceFile)
    (dialect : Dialect) :
    ∃ o, (ofCompanion outline script template dialect).replacement =
      some ⟨.empty (companionPlace outline script), template.path, .ofText template.contents,
        .ofTemplate template.contents (.ofText template.contents) o⟩ := by
  unfold ofCompanion companionPlace
  cases outline.defaultClassClose? with
  | none => exact ⟨_, rfl⟩
  | some close => exact ⟨_, rfl⟩

/-- The replacement that a template of the script is: a stretch of the script by code for that
stretch. -/
def Replacement.own (script : SourceFile) (range content : Span) (o : CompileOptions) : Replacement :=
  ⟨range, script.path, range, .ofTemplate ((range.slice script.contents).getD "")
    ⟨content.start - range.start, content.stop - range.start⟩ o⟩

/-- Without a companion every replacement is a template of the script. -/
theorem replacement_of_mem_contributions {env : Environment} {native : List NativeTemplate} {masked : String}
    {outline : Outline} {c : Contribution} (hc : c ∈ contributions env script none native masked outline)
    (hr : c.replacement = some r) :
    (∃ t ∈ templatesOfAll masked (importedDialect? env outline.imports) outline.embedded,
      ∃ o, r = .own script t.range t.content o) ∨
    ∃ t ∈ native, ∃ o, r = .own script t.range t.content o := by
  rw [contributions, List.append_nil, List.mem_append, List.mem_map] at hc
  rcases hc with ⟨t, ht, rfl⟩ | hc
  · unfold ofTagged at hr
    split at hr
    · cases hr
    · cases hr
      exact .inl ⟨t, ht, _, rfl⟩
  · cases hnative : env.native with
    | none =>
      rw [hnative] at hc
      cases hc
    | some dialect =>
      rw [hnative] at hc
      obtain ⟨t, ht, rfl⟩ := List.mem_map.1 hc
      cases hr
      exact .inr ⟨t, ht, _, rfl⟩

theorem contributions_companion (env : Environment) (script template : SourceFile)
    (rules : CompanionRules) (native : List NativeTemplate) (masked : String) (outline : Outline) :
    contributions env script (some (template, rules)) native masked outline =
      contributions env script none native masked outline ++
        [ofCompanion outline script template rules.dialect] := by
  simp only [contributions, List.append_nil]

theorem perm_replacementsOf (parts : List Contribution) :
    (replacementsOf parts).Perm (parts.filterMap (·.replacement)) :=
  List.mergeSort_perm _ _

theorem replacementsOf_of_sorted {parts : List Contribution}
    (h : ((parts.filterMap (·.replacement)).map (·.range.start)).Pairwise (· ≤ ·)) :
    replacementsOf parts = parts.filterMap (·.replacement) :=
  List.mergeSort_of_pairwise ((List.pairwise_map.1 h).imp decide_eq_true)

/-- A companion is one replacement, between templates of the script. -/
theorem replacementsOf_companion (env : Environment) (script template : SourceFile)
    (rules : CompanionRules) (native : List NativeTemplate) (masked : String) (outline : Outline) :
    ∃ before compiled after,
      replacementsOf (contributions env script (some (template, rules)) native masked outline) =
        before ++ ⟨.empty (companionPlace outline script), template.path, .ofText template.contents,
          compiled⟩ :: after ∧
      ∀ r ∈ before ++ after, r.file = script.path := by
  obtain ⟨o, hcompanion⟩ := replacement_ofCompanion outline script template rules.dialect
  have hperm := perm_replacementsOf
    (contributions env script (some (template, rules)) native masked outline)
  rw [contributions_companion, List.filterMap_append, List.filterMap_cons_some hcompanion,
    List.filterMap_nil] at hperm
  have hmem := hperm.mem_iff.2 (List.mem_append_right _ List.mem_cons_self)
  obtain ⟨before, after, hsplit⟩ := List.append_of_mem hmem
  refine ⟨before, _, after, by rw [contributions_companion]; exact hsplit, fun r hr => ?_⟩
  -- taking the companion out of both lists leaves the templates of the script
  rw [hsplit] at hperm
  have hown := (List.perm_middle.symm.trans (hperm.trans (List.perm_append_singleton _ _))).cons_inv
  obtain ⟨c, hc, hr⟩ := List.mem_filterMap.1 (hown.mem_iff.1 hr)
  rcases replacement_of_mem_contributions hc hr with ⟨t, -, o, rfl⟩ | ⟨t, -, o, rfl⟩
  · rfl
  · rfl

/-- Where the segment of a companion stands among the others. -/
theorem splice_companion {env : Environment} {template : SourceFile} {rules : CompanionRules}
    {native : List NativeTemplate} {masked : String} {outline : Outline}
    (h : Splice script 0 (replacementsOf (contributions env script (some (template, rules)) native masked outline)) ss
      (size script.contents)) :
    ∃ before s after, ss = before ++ s :: after ∧
      s.file = template.path ∧ s.source = .ofText template.contents ∧ s.mapping.isSome ∧
      (∀ t ∈ before ++ after, t.file = script.path) ∧
      (∃ rs, Splice script 0 rs before (companionPlace outline script)) ∧
      ∃ rs, Splice script (companionPlace outline script) rs after (size script.contents) := by
  obtain ⟨rs, compiled, rs', hrs, hfiles⟩ :=
    replacementsOf_companion env script template rules native masked outline
  rw [hrs] at h
  obtain ⟨before, start, after, rfl, hbefore, hafter⟩ := h.split
  refine ⟨before, _, after, rfl, rfl, rfl, rfl, fun t ht => ?_, ⟨rs, hbefore⟩, ⟨rs', hafter⟩⟩
  rcases List.mem_append.1 ht with ht | ht
  · exact hbefore.file_eq (fun r hr => hfiles r (List.mem_append_left _ hr)) t ht
  · exact hafter.file_eq (fun r hr => hfiles r (List.mem_append_right _ hr)) t ht

/-- Splicing loses and duplicates nothing. Whatever the replacements, the segments stand one after
another in the code of a module, and those without a mapping are pieces of the script as they stand
there. If the replacements cut no character there are segments; and they are the script in pieces, with
every replacement once and in its place, exactly if each replacement ends before the next one starts. A
companion then is one segment for all of its text, at its place in the script. -/
theorem splicing_loses_nothing (script : SourceFile) (rs : List Replacement) :
    (∀ m : Module, correlate script 0 0 rs = some m.segments →
      Contiguous 0 m.segments (size m.contents) ∧
        ∀ s ∈ m.segments, s.generated.slice m.contents = some s.code ∧ Verbatim script s) ∧
    ((∀ r ∈ rs, r.Fits script) → ∃ ss, correlate script 0 0 rs = some ss ∧
      (Splice script 0 rs ss (size script.contents) ↔
        rs.Pairwise fun a b => a.range.stop ≤ b.range.start) ∧
      ∀ env template rules native masked outline,
        rs = replacementsOf
          (contributions env script (some (template, rules)) native masked outline) →
        (rs.Pairwise fun a b => a.range.stop ≤ b.range.start) →
        ∃ before s after, ss = before ++ s :: after ∧
          s.file = template.path ∧ s.source = .ofText template.contents ∧ s.mapping.isSome ∧
          (∀ t ∈ before ++ after, t.file = script.path) ∧
          (∃ rs, Splice script 0 rs before (companionPlace outline script)) ∧
          ∃ rs, Splice script (companionPlace outline script) rs after (size script.contents)) := by
  constructor
  · intro m hm
    obtain ⟨⟨stop, hcontiguous⟩, hverbatim⟩ := contiguous_correlate hm
    rw [hcontiguous.stop_eq_size] at hcontiguous
    exact ⟨hcontiguous, fun s hs => ⟨hcontiguous.slice_contents s hs, hverbatim s hs⟩⟩
  · intro hfits
    obtain ⟨ss, hss⟩ := exists_correlate hfits (boundary_zero _) 0
    refine ⟨ss, hss, splice_iff hss hfits, ?_⟩
    rintro env template rules native masked outline rfl hp
    exact splice_companion ((splice_iff hss hfits).2 hp)

theorem splicing_loses_nothing_native_and_companion :
    let script : SourceFile := ⟨"a.gts", "<template></template>;é"⟩
    let dialect : Dialect := { typesModule := "types" }
    let rs := replacementsOf (contributions { native := some dialect } script
      (some (⟨"a.hbs", "é"⟩, { dialect })) [⟨⟨0, 21⟩, ⟨10, 10⟩, .topLevel⟩] "" ⟨[], []⟩)
    (∀ r ∈ rs, r.Fits script) ∧ (rs.Pairwise fun a b => a.range.stop ≤ b.range.start) ∧
      ∃ ss, correlate script 0 0 rs = some ss ∧ Splice script 0 rs ss 24 ∧
        ∃ before s after, ss = before ++ s :: after ∧ s.file = "a.hbs" ∧ s.source = ⟨0, 2⟩ := by
  intro script dialect rs
  have hranges : rs.map (·.range) = [⟨0, 21⟩, ⟨24, 24⟩] := by
    rw [show rs = _ from replacementsOf_of_sorted (by decide +kernel)]
    decide +kernel
  have hfits : ∀ r ∈ rs, r.Fits script := fits_of_ranges hranges (by decide +kernel)
  have hp : rs.Pairwise fun a b => a.range.stop ≤ b.range.start := by
    refine List.pairwise_map.1 (?_ : (rs.map (·.range)).Pairwise fun a b => a.stop ≤ b.start)
    rw [hranges]
    decide
  refine ⟨hfits, hp, ?_⟩
  obtain ⟨ss, hss, hiff, hcompanion⟩ := (splicing_loses_nothing script rs).2 hfits
  obtain ⟨before, s, after, hsplit, hfile, hsource, -⟩ := hcompanion _ _ _ _ _ _ rfl hp
  exact ⟨ss, hss, hiff.2 hp, before, s, after, hsplit, hfile, hsource⟩

/-- Order and disjointness do not suffice. A range that cuts a character leaves a piece of the script that is none. And
an empty range shares no byte with the range that it stands in, but the script goes on from it: a template that a class
ends with is read as its body, the companion is put before the brace that this takes for the last byte, and that byte
is replaced and kept. -/
theorem splicing_repeats_after_empty_range :
    let cutting : Replacement := ⟨⟨1, 1⟩, "a.hbs", ⟨0, 0⟩, ⟨"", .mk .template ⟨0, 0⟩ ⟨0, 0⟩ [], [], []⟩⟩
    let script : SourceFile := ⟨"a.gts",
      "if (x) /class \x7b/.test(y);\nexport default class A extends B.<template></template>\n"⟩
    let dialect : Dialect := { typesModule := "types" }
    let native : NativeTemplate := ⟨⟨59, 80⟩, ⟨69, 69⟩, .classMember⟩
    let rs := replacementsOf (contributions { native := some dialect } script (some (⟨"a.hbs", "b"⟩, { dialect }))
      [native] "" ⟨[], [.defaultClass 79]⟩)
    (cutting.range.In 0 (size "é") ∧ correlate ⟨"a.ts", "é"⟩ 0 0 [cutting] = none) ∧
    nativeTemplates { native := some dialect } script = .ok [native] ∧ (∀ r ∈ rs, r.Fits script) ∧
    (rs.Pairwise fun a b => a.range.start ≤ b.range.start ∧
      ∀ i, a.range.start ≤ i → i < a.range.stop → b.range.start ≤ i → b.range.stop ≤ i) ∧
    ∃ ss, correlate script 0 0 rs = some ss ∧ ¬ Splice script 0 rs ss (size script.contents) ∧
      (∃ r ∈ rs, r.range = ⟨59, 80⟩) ∧ ∃ s ∈ ss, s.mapping = none ∧ s.source = ⟨79, 81⟩ := by
  intro cutting script dialect native rs
  have hranges : rs.map (·.range) = [⟨59, 80⟩, ⟨79, 79⟩] := by
    rw [show rs = _ from replacementsOf_of_sorted (by decide +kernel)]
    decide +kernel
  have hfits : ∀ r ∈ rs, r.Fits script := fits_of_ranges hranges (by decide +kernel)
  obtain ⟨a, rest, hrs, ha, hrest⟩ := List.map_eq_cons_iff.1 hranges
  obtain ⟨b, rest, rfl, hb, hnil⟩ := List.map_eq_cons_iff.1 hrest
  cases List.map_eq_nil_iff.1 hnil
  obtain ⟨ss, hss⟩ := exists_correlate hfits (boundary_zero _) 0
  refine ⟨⟨⟨by decide, by decide, by decide⟩, rfl⟩, by decide +kernel, hfits, ?_, ss, hss, ?_, ⟨a, ?_, ha⟩, ?_⟩
  · rw [hrs, List.pairwise_pair, ha, hb]
    exact ⟨by decide, fun i _ _ hi => hi⟩
  · rw [splice_iff hss hfits, hrs, List.pairwise_pair, ha, hb]
    decide
  · rw [hrs]
    exact List.mem_cons_self
  · simp only [hrs, correlate, ha, hb, bind, Option.bind_eq_some_iff, Option.some.injEq] at hss
    obtain ⟨before, -, after, ⟨between, -, last, hlast, rfl⟩, rfl⟩ := hss
    obtain ⟨hle, -⟩ | ⟨code, -, -, hlast⟩ := passThrough_cases hlast
    · exact absurd hle (by decide)
    · refine ⟨_, List.mem_append_right _ (List.mem_cons_of_mem _ (List.mem_append_right _
        (List.mem_cons_of_mem _ (hlast ▸ List.mem_cons_self)))), rfl, rfl⟩

end TypedTemplate.Module
