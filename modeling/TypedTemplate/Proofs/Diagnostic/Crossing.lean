/-
Where a range of code is placed. Its two ends are looked up one by one, and the range itself by another rule:
by the segment of its end, if its start is in there too. The two rules agree at every border between segments,
so a range that starts in one file and ends in another is never asked for; it shrinks to its start. What is left
are ranges whose ends come in reverse in one file.
-/
import TypedTemplate.Diagnostic.Relocation
import TypedTemplate.Proofs.Module.Lookup
import TypedTemplate.Proofs.Module.Range

namespace TypedTemplate

open Mapping Text
open TypedTemplate.Span (In)

theorem Span.ofLength_ordered {start length : Nat} (h : start ≤ maxPosition) :
    (ofLength start length).start ≤ (ofLength start length).stop :=
  Nat.le_min.2 ⟨Nat.le_add_right _ _, h⟩

/-- A span without bytes leads to a span around the place that its position leads to. -/
theorem Segment.StandsFor.toSourceRange_empty {s : Segment} {text : String} (h : s.StandsFor text)
    {offset : Nat} (hstart : s.generated.start ≤ offset) (hstop : offset ≤ s.generated.stop) :
    ∃ r, s.toSourceRange (.empty offset) = .ok r ∧ r.In s.source.start s.source.stop ∧
      r.touches (s.toSource offset) = true := by
  rcases h.toSourceRange_cases le_rfl hstart hstop with ⟨r, hr, hin⟩ | ⟨-, _, _, -, -, -, -, hlt⟩
  · refine ⟨r, hr, hin, Span.touches_iff.2 ?_⟩
    rw [toSourceRange] at hr
    cases hnode : s.unevenGenerated? ⟨offset, offset⟩ with
    | none =>
      rw [hnode] at hr
      dsimp only at hr
      rw [ordered_eq_ok le_rfl] at hr
      cases hr
      exact ⟨le_rfl, le_rfl⟩
    | some node =>
      rw [hnode] at hr
      cases hr
      -- it is the node by which the position is carried
      obtain ⟨tree, htree, hnode⟩ := Option.bind_eq_some_iff.1 hnode
      obtain ⟨n, hn, hif⟩ := Option.bind_eq_some_iff.1 hnode
      have heq : n = node := by
        split at hif
        · exact Option.some.inj hif
        · cases hif
      subst heq
      obtain ⟨hmem, haround⟩ := Tree.mem_of_narrowestGenerated hn
      obtain ⟨hlower, hupper⟩ := Span.includes_iff.1 haround
      have hcarry := Tree.carry_in hlower hupper ((h.mapped tree htree).inside n hmem).1.ordered
      have hto := toSource_of_narrowest htree hn
      rw [Nat.sub_add_cancel hstart] at hto
      rw [hto]
      exact ⟨Nat.add_le_add_right hcarry.1 _, Nat.add_le_add_right hcarry.2 _⟩
  · exact absurd hlt (lt_irrefl _)

namespace Module

open Script

/-! ## Woven modules have segments -/

section
variable {reader : ScriptReader} {env : Environment} {script : SourceFile} {companion : Option SourceFile} {m : Module}

/-- Only a literal of the script is refused. -/
theorem size_pos_of_refused {found : Option (SourceFile × CompanionRules)} {native : List NativeTemplate}
    {outline : Outline} (hnative : ∀ t ∈ native, Native.Stands script.contents.toList t) (hreader : reader.Faithful)
    (houtline : reader (Native.mask native script.contents) = some outline) {c : Contribution}
    (hc : c ∈ contributions env script found native (Native.mask native script.contents) outline)
    (hnone : c.replacement = none) : 0 < size script.contents := by
  unfold contributions at hc
  dsimp only at hc
  rw [List.mem_append, List.mem_append, List.mem_map] at hc
  rcases hc with (⟨t, ht, -⟩ | hc) | hc
  · have hd := (templatesOfAll_quoted (hreader houtline) t ht).delimited hnative
    obtain ⟨code, hslice⟩ := hd.range_cuts
    have hle := (size_of_slice hslice).2
    have hlt := hd.opened.trans_le (hd.content_in.ordered.trans hd.content_in.upper)
    omega
  · cases henv : env.native with
    | none =>
      rw [henv] at hc
      cases hc
    | some dialect =>
      rw [henv] at hc
      obtain ⟨t, -, rfl⟩ := List.mem_map.1 hc
      cases hnone
  · cases found with
    | none => cases hc
    | some found =>
      rw [List.mem_singleton.1 hc, ofCompanion] at hnone
      split at hnone <;> cases hnone

theorem segments_ne_nil_of_weave (hreader : reader.Faithful)
    (h : weaveWith reader env script companion = .ok (some m)) : m.segments ≠ [] := by
  obtain ⟨found, native, outline, -, hnative, houtline, hmade⟩ := weave_contributions h
  have hsegments := (ofContributions_eq_some hmade).1
  generalize hparts : contributions env script found native (Native.mask native script.contents) outline =
    parts at hmade hsegments
  intro hnil
  cases hrs : replacementsOf parts with
  | cons r rs =>
    obtain ⟨start, hmem⟩ := exists_segment hsegments (hrs ▸ List.mem_cons_self)
    rw [hnil] at hmem
    cases hmem
  | nil =>
    -- without a replacement something is refused, and the script is kept as it is
    obtain ⟨c, hc, hnone⟩ : ∃ c ∈ parts, c.replacement = none := by
      cases parts with
      | nil => simp [ofContributions, replacementsOf] at hmade
      | cons c cs =>
        refine ⟨c, List.mem_cons_self, Option.eq_none_iff_forall_ne_some.2 fun r hr => ?_⟩
        have hmem : r ∈ replacementsOf (c :: cs) :=
          (perm_replacementsOf _).mem_iff.2 (List.mem_filterMap.2 ⟨c, List.mem_cons_self, hr⟩)
        rw [hrs] at hmem
        cases hmem
    rw [← hparts] at hc
    have hpos := size_pos_of_refused hnative hreader houtline hc hnone
    rw [hrs, hnil, correlate] at hsegments
    rcases passThrough_cases hsegments with ⟨hle, -⟩ | ⟨code, -, -, hcons⟩
    · omega
    · cases hcons

end

/-! ## Ranges of code -/

namespace Woven

variable {m : Module}

/-- The positions that lead nowhere are those after the code. -/
theorem toSource?_eq_none_iff (h : m.Woven) (hne : m.segments ≠ []) {offset : Nat} :
    m.toSource? offset = none ↔ size m.contents < offset := by
  have heq : m.segmentAt? offset = m.segments.find? (·.generated.touches offset) :=
    h.contiguous.inOrder.first_eq_find? offset
  rw [toSource?, heq, Option.map_eq_none_iff, List.find?_eq_none]
  constructor
  · intro hnone
    refine Nat.lt_of_not_le fun hle => ?_
    obtain ⟨s, hs, htouches⟩ := h.contiguous.exists_touches hne (Nat.zero_le offset) hle
    exact hnone s hs htouches
  · intro hlt s hs htouches
    have hstop := (Span.touches_iff.1 htouches).2
    have hle := h.stop_le hs
    omega

theorem exists_toSource? (h : m.Woven) (hne : m.segments ≠ []) {offset : Nat}
    (hle : offset ≤ size m.contents) : ∃ file place, m.toSource? offset = some (file, place) := by
  cases hto : m.toSource? offset with
  | none => exact absurd ((h.toSource?_eq_none_iff hne).1 hto) (Nat.not_lt.2 hle)
  | some found => exact ⟨found.1, found.2, rfl⟩

/-- From the empty range at a position one gets to a range of the file that the position leads to. -/
theorem toSourceRange?_empty (h : m.Woven) {offset place : Nat} {file : String}
    (hto : m.toSource? offset = some (file, place)) :
    ∃ r, m.toSourceRange? offset offset = .ok (some (file, r)) ∧ r.touches place = true ∧
      ∃ s ∈ m.segments, s.file = file ∧ r.In s.source.start s.source.stop := by
  obtain ⟨s, hs, heq⟩ := Option.map_eq_some_iff.1 hto
  obtain ⟨rfl, rfl⟩ := Prod.mk.inj heq
  obtain ⟨before, after, hsplit, -, hstart, hstop⟩ := (segmentAt?_eq_some_iff h.contiguous).1 hs
  have hmem : s ∈ m.segments := by rw [hsplit]; simp
  obtain ⟨_, hstands⟩ := h.standsFor s hmem
  obtain ⟨r, hr, hin, htouches⟩ := hstands.toSourceRange_empty hstart hstop
  refine ⟨r, ?_, htouches, s, hmem, rfl, hin⟩
  rw [toSourceRange?_of_one hs hstart le_rfl]
  exact congrArg (Except.map _) hr

/-- What becomes of a range of code: it reaches past the code; its ends lead to two files and it shrinks to
its start; or they lead to one file and it is looked up as it is. -/
theorem locate?_cases (h : m.Woven) (hne : m.segments ≠ []) {range : Span}
    (hle : range.start ≤ range.stop) :
    size m.contents < range.stop ∧ m.locate? range = .ok none ∨
    range.stop ≤ size m.contents ∧ ∃ f a g b, m.toSource? range.start = some (f, a) ∧
      m.toSource? range.stop = some (g, b) ∧ m.locate? range =
        m.toSourceRange? range.start (if Path.same f g then range.stop else range.start) := by
  rcases Nat.lt_or_ge (size m.contents) range.stop with hlt | hge
  · refine .inl ⟨hlt, ?_⟩
    rw [locate?, (h.toSource?_eq_none_iff hne).2 hlt]
    cases m.toSource? range.start <;> rfl
  · obtain ⟨f, a, hf⟩ := h.exists_toSource? hne (hle.trans hge)
    obtain ⟨g, b, hg⟩ := h.exists_toSource? hne hge
    refine .inr ⟨hge, f, a, g, b, hf, hg, ?_⟩
    rw [locate?, hf, hg]

/-- The two ways of looking up agree on which file a range starts and ends in. -/
theorem locate?_ne_crossesFiles (h : m.Woven) (hne : m.segments ≠ []) {range : Span}
    (hle : range.start ≤ range.stop) : m.locate? range ≠ .error .crossesFiles := by
  rcases h.locate?_cases hne hle with ⟨-, hnone⟩ | ⟨-, f, a, g, b, hf, hg, hlocate⟩
  · rw [hnone]
    rintro ⟨⟩
  · rw [hlocate]
    split
    · rename_i hsame
      rcases h.toSourceRange?_cases hle hf hg hsame with ⟨r, hr, -⟩ | ⟨hr, -⟩ <;>
      · rw [hr]
        rintro ⟨⟩
    · obtain ⟨r, hr, -⟩ := h.toSourceRange?_empty hf
      rw [hr]
      rintro ⟨⟩

end Woven

/-- A range of code is never looked up across files. It leads nowhere exactly if one of its ends is past the
code. Otherwise it leads to a range of the file that its start leads to, wherever it ends: in order, and within
the text of the file if no companion has the path of the script. If it ends in another file, that is a range
around the place that its start leads to. There is one way to fail, for a range that starts and ends in one file:
its ends lead to places in reverse, because a node around them is as long as its code, or because they lie in
segments that overlap in the file. -/
theorem locate_never_crosses {reader : ScriptReader} (hreader : reader.Faithful) {env : Environment}
    {script : SourceFile} {companion : Option SourceFile} {m : Module}
    (h : weaveWith reader env script companion = .ok (some m)) {start : Nat} (hstart : start ≤ maxPosition)
    (length : Nat) :
    let range := Span.ofLength start length
    m.locate? range ≠ .error .crossesFiles ∧
    (m.locate? range = .ok none ↔ size m.contents < range.start ∨ size m.contents < range.stop) ∧
    (range.stop ≤ size m.contents → ∃ f a g b, m.toSource? range.start = some (f, a) ∧
      m.toSource? range.stop = some (g, b) ∧
      ((∃ file r text, m.locate? range = .ok (some (file, r)) ∧ Path.same f file = true ∧
        (Path.same f g = false → file = f ∧ r.touches a = true) ∧ m.source? file = some text ∧
        r.start ≤ r.stop ∧
        ((∀ t, companion = some t → Path.same script.path t.path = false) → r.stop ≤ size text)) ∨
      m.locate? range = .error .disordered ∧ Path.same f g = true ∧
        ((∃ s ∈ m.segments, s.generated.start ≤ range.start ∧ range.stop ≤ s.generated.stop ∧
          s.ReversesCode range) ∨
        ∃ a ∈ m.segments, ∃ b ∈ m.segments, Overlap a b ∧ a.generated.touches range.start = true ∧
          b.generated.touches range.stop = true))) := by
  intro range
  have hwoven := woven_of_weave hreader h
  have hne := segments_ne_nil_of_weave hreader h
  have hle : range.start ≤ range.stop := Span.ofLength_ordered hstart
  refine ⟨hwoven.locate?_ne_crossesFiles hne hle, ?_⟩
  rcases hwoven.locate?_cases hne hle with ⟨hpast, hnone⟩ | ⟨hin, f, a, g, b, hf, hg, hlocate⟩
  · refine ⟨iff_of_true hnone (.inr hpast), fun hin => absurd hpast (Nat.not_lt.2 hin)⟩
  · have hnotPast : ¬ (size m.contents < range.start ∨ size m.contents < range.stop) := by omega
    cases hsame : Path.same f g with
    | false =>
      rw [hsame, if_neg Bool.false_ne_true] at hlocate
      obtain ⟨r, hr, htouches, s, hs, rfl, hinside⟩ := hwoven.toSourceRange?_empty hf
      obtain ⟨text, htext, hstands⟩ := source?_of_weave hreader h hs
      rw [hlocate, hr]
      refine ⟨iff_of_false (by rintro ⟨⟩) hnotPast, fun _ => ⟨_, a, g, b, hf, hg, .inl ?_⟩⟩
      exact ⟨_, r, text, rfl, Path.same_self _, fun _ => ⟨rfl, htouches⟩, htext, hinside.ordered,
        fun hdistinct => hinside.upper.trans (hstands hdistinct).source_in.upper⟩
    | true =>
      rw [hsame, if_pos rfl] at hlocate
      rcases hwoven.toSourceRange?_cases hle hf hg hsame with
        ⟨r, hr, hordered, s, hs, rfl, hstop⟩ | ⟨hr, hreason⟩
      · obtain ⟨text, htext, hstands⟩ := source?_of_weave hreader h hs
        rw [hlocate, hr]
        refine ⟨iff_of_false (by rintro ⟨⟩) hnotPast, fun _ => ⟨f, a, _, b, hf, hg, .inl ?_⟩⟩
        refine ⟨_, r, text, rfl, hsame, fun hother => ?_, htext, hordered,
          fun hdistinct => hstop.trans (hstands hdistinct).source_in.upper⟩
        rw [hsame] at hother
        cases hother
      · rw [hlocate, hr]
        refine ⟨iff_of_false (by rintro ⟨⟩) hnotPast, fun _ => ⟨f, a, g, b, hf, hg, .inr ?_⟩⟩
        exact ⟨rfl, hsame, hreason⟩

/-- From the script into the template that stands in its class. -/
theorem locate_never_crosses_into_companion :
    let env : Environment := { companion := some { dialect := { typesModule := "types", globals := some [] } } }
    let script : SourceFile := ⟨"a.ts", "export default class \x7b\x7d"⟩
    let template : SourceFile := ⟨"a.hbs", "\x7b\x7bx\x7d\x7d"⟩
    let reader : ScriptReader := .withoutLiterals fun text => if text = script.contents then [.defaultClass 22] else []
    ∃ m, weaveWith reader env script (some template) = .ok (some m) ∧
      ∃ r, m.locate? (.ofLength 4 96) = .ok (some ("a.ts", r)) ∧ r.touches 4 = true ∧ r.stop ≤ 23 := by
  intro env script template reader
  have hreader : reader.Faithful := ScriptReader.faithful_withoutLiterals _
  have hweave : ((weaveWith reader env script (some template)).toOption.join.any fun m =>
      decide ((m.segments.map fun s => (s.file, s.generated, s.source, s.mapping.isNone)) =
          [("a.ts", ⟨0, 22⟩, ⟨0, 22⟩, true), ("a.hbs", ⟨22, 252⟩, ⟨0, 5⟩, false),
            ("a.ts", ⟨252, 253⟩, ⟨22, 23⟩, true)] ∧
        size m.contents = 253 ∧ m.source? "a.ts" = some script.contents)) = true := by
    decide +kernel
  obtain ⟨m, hm, hcheck⟩ := exists_of_any hweave
  obtain ⟨hsegments, hsize, hsource⟩ := of_decide_eq_true hcheck
  obtain ⟨first, hfirst, hscript⟩ := List.mem_map.1 (hsegments ▸ List.mem_cons_self)
  obtain ⟨last, hlast, hcompanion⟩ :=
    List.mem_map.1 (hsegments ▸ List.mem_cons_of_mem _ List.mem_cons_self)
  simp only [Prod.mk.injEq, Option.isNone_iff_eq_none] at hscript hcompanion
  obtain ⟨hfile, hcode, hspan, hplain⟩ := hscript
  obtain ⟨hfile', hcode', -⟩ := hcompanion
  have hcontiguous := (woven_of_weave hreader hm).contiguous
  have hto : m.toSource? 4 = some ("a.ts", 4) := by
    rw [toSource?, segmentAt?_of_mem hcontiguous hfirst (by rw [hcode]; decide) (by rw [hcode]; decide)]
    simp [hfile, Segment.toSource, hplain, hspan, hcode, Span.length]
  have hto' : m.toSource? 100 = some ("a.hbs", last.toSource 100) := by
    rw [toSource?, segmentAt?_of_mem hcontiguous hlast (by rw [hcode']; decide) (by rw [hcode']; decide),
      Option.map_some, hfile']
  have hother : Path.same "a.ts" "a.hbs" = false := by decide +kernel
  obtain ⟨-, -, hplaced⟩ := locate_never_crosses hreader hm (show 4 ≤ maxPosition by decide) 96
  obtain ⟨f, a, g, b, hf, hg, hplaced⟩ := hplaced (by rw [hsize]; decide)
  obtain ⟨rfl, rfl⟩ := Prod.mk.inj (Option.some.inj (hto.symm.trans hf))
  obtain ⟨rfl, -⟩ := Prod.mk.inj (Option.some.inj (hto'.symm.trans hg))
  rcases hplaced with ⟨file, r, text, hr, -, hstart, htext, -, hbound⟩ | ⟨-, hsame, -⟩
  · obtain ⟨rfl, htouches⟩ := hstart hother
    cases hsource.symm.trans htext
    refine ⟨m, hm, r, hr, htouches, hbound ?_⟩
    rintro t ⟨⟩
    exact hother
  · rw [hother] at hsame
    cases hsame

/-- In a mustache that is as long as its code, a range from before its path to the end of the path leads to
places in reverse. -/
theorem locate_disordered_in_padded_mustache :
    let script : SourceFile := ⟨"a.gts",
      "<template>\x7b\x7ba                                                       \x7d\x7d</template>"⟩
    ∃ m, weaveWith .plain { native := some { typesModule := "types", globals := some [] } } script none = .ok (some m) ∧
      185 ≤ size m.contents ∧ m.locate? (.ofLength 183 2) = .error .disordered := by
  intro script
  have hweave : ((weaveWith .plain { native := some { typesModule := "types", globals := some [] } } script
      none).toOption.join.any fun m => decide (185 ≤ size m.contents ∧
        (m.locate? (.ofLength 183 2)).toOption.isNone)) = true := by
    decide +kernel
  obtain ⟨m, hm, hcheck⟩ := exists_of_any hweave
  obtain ⟨hsize, hfails⟩ := of_decide_eq_true hcheck
  refine ⟨m, hm, hsize, ?_⟩
  cases hlocate : m.locate? (.ofLength 183 2) with
  | ok place =>
    rw [hlocate] at hfails
    cases hfails
  | error fault =>
    cases fault with
    | disordered => rfl
    | crossesFiles =>
      exact absurd hlocate ((woven_of_weave ScriptReader.faithful_plain hm).locate?_ne_crossesFiles
        (segments_ne_nil_of_weave ScriptReader.faithful_plain hm) (by decide))

end Module

/-! ## Runs -/

section
variable {ε α β : Type} {e : ε}

theorem bind_ne_error {x : Except ε α} {f : α → Except ε β} (hx : x ≠ .error e) (hf : ∀ a, f a ≠ .error e) :
    x >>= f ≠ .error e := by
  cases x with
  | error fault => exact fun h => hx (congrArg Except.error (Except.error.inj h))
  | ok a => exact hf a

theorem mapM_ne_error {f : α → Except ε β} {xs : List α} (h : ∀ x ∈ xs, f x ≠ .error e) :
    xs.mapM f ≠ .error e := by
  induction xs with
  | nil => rintro ⟨⟩
  | cons x xs ih =>
    rw [List.mapM_cons]
    refine bind_ne_error (h x List.mem_cons_self) fun b => ?_
    refine bind_ne_error (ih fun y hy => h y (List.mem_cons_of_mem x hy)) fun bs => ?_
    rintro ⟨⟩

end

/-- Modules whose code has a place for each of its ranges. -/
def Placing (modules : List Module) : Prop :=
  ∀ m ∈ modules, ∀ range : Span, range.start ≤ range.stop → m.locate? range ≠ .error .crossesFiles

theorem placing_of_weave {reader : ScriptReader} (hreader : reader.Faithful) {modules : List Module}
    (h : ∀ m ∈ modules, ∃ env script companion, Module.weaveWith reader env script companion = .ok (some m)) :
    Placing modules := by
  intro m hm range hle
  obtain ⟨env, script, companion, hweave⟩ := h m hm
  exact (Module.woven_of_weave hreader hweave).locate?_ne_crossesFiles
    (Module.segments_ne_nil_of_weave hreader hweave) hle

namespace Placing

variable {modules : List Module}

theorem related (h : Placing modules) {r : RelatedPlace} (hstart : r.start ≤ maxPosition) :
    r.relocate modules ≠ .error .crossesFiles := by
  unfold RelatedPlace.relocate
  split
  · rename_i m hfind
    refine bind_ne_error (h m (List.mem_of_find?_eq_some hfind) _ (Span.ofLength_ordered hstart)) fun place => ?_
    cases place <;> rintro ⟨⟩
  · rintro ⟨⟩

theorem diagnostic (h : Placing modules) {m : Module} (hm : m ∈ modules) {d : Diagnostic}
    (hstart : d.start ≤ maxPosition) (hrelated : ∀ r ∈ d.related, r.start ≤ maxPosition) :
    d.relocate modules m ≠ .error .crossesFiles := by
  unfold Diagnostic.relocate
  refine bind_ne_error (mapM_ne_error fun r hr => h.related (hrelated r hr)) fun related => ?_
  refine bind_ne_error (h m hm _ (Span.ofLength_ordered hstart)) fun place => ?_
  cases place <;> rintro ⟨⟩

theorem turn (h : Placing modules) (s : Relocated.Progress) {d : Diagnostic} (hstart : d.start ≤ maxPosition)
    (hrelated : ∀ r ∈ d.related, r.start ≤ maxPosition) :
    Relocated.turn modules s d ≠ .error .crossesFiles := by
  unfold Relocated.turn
  split
  · rintro ⟨⟩
  · rename_i m hfind
    refine bind_ne_error (h.diagnostic (List.mem_of_find?_eq_some hfind) hstart hrelated) fun placed => ?_
    split <;> rintro ⟨⟩

theorem run (h : Placing modules) {ds : List Diagnostic}
    (hds : ∀ d ∈ ds, d.start ≤ maxPosition ∧ ∀ r ∈ d.related, r.start ≤ maxPosition)
    (s : Relocated.Progress) : ds.foldlM (Relocated.turn modules) s ≠ .error .crossesFiles := by
  induction ds generalizing s with
  | nil => rintro ⟨⟩
  | cons d ds ih =>
    rw [List.foldlM_cons]
    obtain ⟨hstart, hrelated⟩ := hds d List.mem_cons_self
    exact bind_ne_error (h.turn s hstart hrelated) fun s' =>
      ih (fun d hd => hds d (List.mem_cons_of_mem _ hd)) s'

end Placing

/-- A run over diagnostics about woven modules never fails because a range crosses files. -/
theorem Relocated.ofDiagnostics_ne_crossesFiles {reader : ScriptReader} (hreader : reader.Faithful)
    {modules : List Module}
    (hmodules : ∀ m ∈ modules, ∃ env script companion, Module.weaveWith reader env script companion = .ok (some m))
    {ds : List Diagnostic} (hds : ∀ d ∈ ds, d.start ≤ maxPosition ∧ ∀ r ∈ d.related, r.start ≤ maxPosition) :
    Relocated.ofDiagnostics modules ds ≠ .error .crossesFiles := by
  unfold Relocated.ofDiagnostics
  refine bind_ne_error ((placing_of_weave hreader hmodules).run hds _) fun s => ?_
  rintro ⟨⟩

end TypedTemplate
