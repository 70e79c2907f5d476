/-
Spans that are carried between the code of a module and its files. Positions never leave the segment
they are in, so what comes out lies in the file or in the code. It is also in order, but for two cases:
segments that overlap in their file, and a node that is as long as its code, where the two ends of a
span go ways of their own.
-/
import TypedTemplate.Proofs.Module.Weave

namespace TypedTemplate

open Mapping Text
open TypedTemplate.Span (In)

/-! ## In one segment -/

namespace Segment

/-- A span of code whose ends lead to places in reverse. The node around it, which is no name, has as
much code as source. -/
def ReversesCode (s : Segment) (range : Span) : Prop :=
  ∃ tree n, s.mapping = some tree ∧
    tree.narrowestGenerated
      ⟨range.start - s.generated.start, range.stop - s.generated.start⟩ = some n ∧
    n.source.length = n.generated.length ∧ n.label.isName = false ∧
    s.toSource range.stop < s.toSource range.start

/-- A span of the file whose ends lead to places in reverse. The node around it has as much code as
source. -/
def ReversesSource (s : Segment) (range : Span) : Prop :=
  ∃ tree n, s.mapping = some tree ∧
    tree.narrowestSource ⟨range.start - s.source.start, range.stop - s.source.start⟩ = some n ∧
    n.source.length = n.generated.length ∧ s.toGenerated range.stop < s.toGenerated range.start

namespace StandsFor

variable {s : Segment} {text : String}

theorem toSource_in (h : s.StandsFor text) {offset : Nat} (hstop : offset ≤ s.generated.stop) :
    s.source.start ≤ s.toSource offset ∧ s.toSource offset ≤ s.source.stop := by
  have hordered := h.source_in.ordered
  unfold toSource
  split
  · dsimp only [Span.length]
    omega
  · rename_i tree htree
    have hle := (h.mapped tree htree).toSource_le (Nat.sub_le_sub_right hstop s.generated.start)
    dsimp only
    rw [Span.length] at hle
    omega

theorem toGenerated_in (h : s.StandsFor text) {offset : Nat} (hstop : offset ≤ s.source.stop) :
    s.generated.start ≤ s.toGenerated offset ∧ s.toGenerated offset ≤ s.generated.stop := by
  have hordered := h.code_ordered
  unfold toGenerated
  split
  · dsimp only [Span.length]
    omega
  · rename_i tree htree
    have hle := (h.mapped tree htree).toGenerated_le (Nat.sub_le_sub_right hstop s.source.start)
    dsimp only
    rw [Span.length] at hle
    omega

/-- Inside a name, the ends of a span stay in order. -/
theorem toSource_le_of_name (h : s.StandsFor text) {tree n : Tree} (htree : s.mapping = some tree)
    {start stop : Nat} (hlt : start < stop) (hstart : s.generated.start ≤ start)
    (hn : tree.narrowestGenerated ⟨start - s.generated.start, stop - s.generated.start⟩ = some n)
    (heven : n.source.length = n.generated.length) (hname : n.label.isName = true) :
    s.toSource start ≤ s.toSource stop := by
  obtain ⟨hmem, haround⟩ := Tree.mem_of_narrowestGenerated hn
  obtain ⟨hlower, hupper⟩ := Span.includes_iff.1 haround
  dsimp only at hlower hupper
  obtain ⟨hsound, -⟩ := (h.mapped tree htree).named n hmem hname
  have hnamed : n.IsNamed := by
    refine ⟨hname, ?_⟩
    simp only [Span.isEmpty, beq_eq_false_iff_ne]
    omega
  have hends {here : Nat} (h₁ : n.generated.start ≤ here) (h₂ : here ≤ n.generated.stop) :=
    toSource_named htree hsound hmem hnamed heven h₁ h₂
  have hfirst := hends hlower (by omega)
  have hlast := hends (by omega) hupper
  rw [Nat.sub_add_cancel hstart] at hfirst
  rw [Nat.sub_add_cancel (hstart.trans hlt.le)] at hlast
  omega

/-- Two places between `lo` and `hi` are a span there, or disordered. -/
theorem ordered_cases {a b lo hi : Nat} (ha : lo ≤ a) (hb : b ≤ hi) :
    (∃ r, ordered a b = .ok r ∧ r.In lo hi) ∨ ordered a b = .error .disordered ∧ b < a := by
  rcases Nat.lt_or_ge b a with hlt | hge
  · exact .inr ⟨ordered_eq_error hlt, hlt⟩
  · exact .inl ⟨_, ordered_eq_ok hge, ha, hge, hb⟩

/-- A span of code in a segment leads to a span of the segment's source, or its ends are reversed. -/
theorem toSourceRange_cases (h : s.StandsFor text) {start stop : Nat} (hle : start ≤ stop)
    (hstart : s.generated.start ≤ start) (hstop : stop ≤ s.generated.stop) :
    (∃ r, s.toSourceRange ⟨start, stop⟩ = .ok r ∧ r.In s.source.start s.source.stop) ∨
      s.toSourceRange ⟨start, stop⟩ = .error .disordered ∧ s.ReversesCode ⟨start, stop⟩ := by
  -- the ends may go one by one
  have hends (hnone : s.unevenGenerated? ⟨start, stop⟩ = none) :
      (∃ r, s.toSourceRange ⟨start, stop⟩ = .ok r ∧ r.In s.source.start s.source.stop) ∨
        s.toSourceRange ⟨start, stop⟩ = .error .disordered ∧ s.toSource stop < s.toSource start := by
    rw [toSourceRange, hnone]
    exact ordered_cases (h.toSource_in (hle.trans hstop)).1 (h.toSource_in hstop).2
  cases hmapping : s.mapping with
  | none =>
    refine .inl ((hends (by rw [unevenGenerated?, hmapping]; rfl)).resolve_right fun hlt => ?_)
    simp only [toSource, hmapping] at hlt
    omega
  | some tree =>
    have hspans := h.mapped tree hmapping
    have hrange : stop - s.generated.start ≤ s.generated.length := Nat.sub_le_sub_right hstop _
    obtain ⟨n, hmem, hn⟩ := hspans.exists_narrowest
      (show (Span.mk (start - s.generated.start) (stop - s.generated.start)).stop ≤ _ from hrange)
    by_cases heven : n.source.length = n.generated.length
    · refine (hends (by simp [unevenGenerated?, hmapping, hn, heven])).imp_right ?_
      rintro ⟨hr, hlt⟩
      refine ⟨hr, tree, n, hmapping, hn, heven, ?_, hlt⟩
      -- a name would keep them in order
      by_contra hname
      have hne : start ≠ stop := by
        rintro rfl
        exact absurd hlt (lt_irrefl _)
      have := h.toSource_le_of_name hmapping (lt_of_le_of_ne hle hne) hstart hn heven
        (Bool.eq_true_of_not_eq_false hname)
      omega
    · have hsome : s.unevenGenerated? ⟨start, stop⟩ = some n := by
        simp [unevenGenerated?, hmapping, hn, heven]
      -- a node of another length answers with all of its source
      have hin := ((hspans.inside n hmem).1).shift s.source.start
      rw [toSourceRange, hsome]
      have hordered := h.source_in.ordered
      exact .inl ⟨_, rfl, hin.mono (by omega) (by rw [Span.length]; omega)⟩

/-- A span of a segment's source leads to a span of its code, or its ends are reversed. -/
theorem toGeneratedRange_cases (h : s.StandsFor text) {start stop : Nat} (hle : start ≤ stop)
    (hstop : stop ≤ s.source.stop) :
    (∃ r, s.toGeneratedRange ⟨start, stop⟩ = .ok r ∧ r.In s.generated.start s.generated.stop) ∨
      s.toGeneratedRange ⟨start, stop⟩ = .error .disordered ∧ s.ReversesSource ⟨start, stop⟩ := by
  have hends (hnone : s.unevenSource? ⟨start, stop⟩ = none) :
      (∃ r, s.toGeneratedRange ⟨start, stop⟩ = .ok r ∧ r.In s.generated.start s.generated.stop) ∨
        s.toGeneratedRange ⟨start, stop⟩ = .error .disordered ∧ s.toGenerated stop < s.toGenerated start := by
    rw [toGeneratedRange, hnone]
    exact ordered_cases (h.toGenerated_in (hle.trans hstop)).1 (h.toGenerated_in hstop).2
  cases hmapping : s.mapping with
  | none =>
    refine .inl ((hends (by rw [unevenSource?, hmapping]; rfl)).resolve_right fun hlt => ?_)
    simp only [toGenerated, hmapping] at hlt
    omega
  | some tree =>
    have hspans := h.mapped tree hmapping
    cases hn : tree.narrowestSource ⟨start - s.source.start, stop - s.source.start⟩ with
    | none =>
      -- only an empty root is not around the span, and it leads all positions to one place
      refine .inl ((hends (by simp [unevenSource?, hmapping, hn])).resolve_right fun hlt => ?_)
      rcases hspans.text with hs | ⟨hs, hpos, hcs⟩
      · have hincludes : tree.source.includes
            ⟨start - s.source.start, stop - s.source.start⟩ = true := by
          rw [hs]
          exact Span.includes_iff.2 ⟨Nat.zero_le _, Nat.sub_le_sub_right hstop _⟩
        obtain ⟨n, hsome⟩ := Tree.exists_narrowestSource hincludes
        rw [hn] at hsome
        cases hsome
      · simp only [toGenerated, hmapping, Tree.Spans.toGenerated_of_cut hs hspans.code hpos hcs,
          lt_self_iff_false, and_false] at hlt
    | some n =>
      have hmem := (Tree.mem_of_narrowestSource hn).1
      by_cases heven : n.source.length = n.generated.length
      · refine (hends (by simp [unevenSource?, hmapping, hn, heven])).imp_right ?_
        rintro ⟨hr, hlt⟩
        exact ⟨hr, tree, n, hmapping, hn, heven, hlt⟩
      · have hsome : s.unevenSource? ⟨start, stop⟩ = some n := by
          simp [unevenSource?, hmapping, hn, heven]
        have hin := ((hspans.inside n hmem).2).shift s.generated.start
        rw [toGeneratedRange, hsome]
        have hordered := h.code_ordered
        exact .inl ⟨_, rfl, hin.mono (by omega) (by rw [Span.length]; omega)⟩

end StandsFor

end Segment

/-! ## From one segment to another -/

namespace Module

variable {m : Module}

/-- Segments of one file that overlap there, or come there in the other order than in the code. -/
def Overlap (a b : Segment) : Prop :=
  Path.same a.file b.file = true ∧ a.generated.stop ≤ b.generated.start ∧
    b.source.start < a.source.stop

/-- Of two segments one comes first in the code. -/
theorem Woven.trichotomy (h : m.Woven) {a b : Segment} (ha : a ∈ m.segments) (hb : b ∈ m.segments) :
    a = b ∨ a.generated.stop ≤ b.generated.start ∨ b.generated.stop ≤ a.generated.start := by
  have hp := List.pairwise_map.1 h.contiguous.inOrder.pairwise
  obtain ⟨before, after, hsplit⟩ := List.append_of_mem hb
  rw [hsplit] at ha hp
  obtain ⟨-, hafter, hbefore⟩ := List.pairwise_append.1 hp
  rcases List.mem_append.1 ha with ha | ha
  · exact .inr (.inl (hbefore a ha b List.mem_cons_self))
  · rcases List.mem_cons.1 ha with rfl | ha
    · exact .inl rfl
    · exact .inr (.inr ((List.pairwise_cons.1 hafter).1 a ha))

section
variable {first last : Segment} {start stop : Nat}

/-- Ends in two segments that lead to places in reverse. -/
theorem Woven.overlap_of_code (h : m.Woven) (hfirst : first ∈ m.segments)
    (hlast : last ∈ m.segments) (hsame : Path.same first.file last.file = true)
    (hstart : first.generated.start ≤ start) (hafter : start < last.generated.start)
    (hfirstStop : start ≤ first.generated.stop) (hlastStop : stop ≤ last.generated.stop)
    (hlt : last.toSource stop < first.toSource start) : Overlap first last := by
  obtain ⟨_, hf⟩ := h.standsFor first hfirst
  obtain ⟨_, hl⟩ := h.standsFor last hlast
  have hto := hf.toSource_in hfirstStop
  have hto' := hl.toSource_in hlastStop
  have hordered := hl.code_ordered
  rcases h.trichotomy hfirst hlast with rfl | hcode | hcode
  · omega
  · exact ⟨hsame, hcode, by omega⟩
  · omega

theorem Woven.overlap_of_source (h : m.Woven) (hfirst : first ∈ m.segments)
    (hlast : last ∈ m.segments) (hsame : Path.same last.file first.file = true)
    (hstart : first.source.start ≤ start) (hafter : start < last.source.start)
    (hfirstStop : start ≤ first.source.stop) (hlastStop : stop ≤ last.source.stop)
    (hlt : last.toGenerated stop < first.toGenerated start) : Overlap last first := by
  obtain ⟨_, hf⟩ := h.standsFor first hfirst
  obtain ⟨_, hl⟩ := h.standsFor last hlast
  have hto := hf.toGenerated_in hfirstStop
  have hto' := hl.toGenerated_in hlastStop
  have hordered := hl.source_in.ordered
  rcases h.trichotomy hfirst hlast with rfl | hcode | hcode
  · omega
  · omega
  · exact ⟨hsame, hcode, by omega⟩

end

/-! ## In a module -/

/-- A span of code whose ends come from one file leads to a span of that file up to the end of a segment,
or it is disordered. -/
theorem Woven.toSourceRange?_cases (h : m.Woven) {start stop a b : Nat} {f g : String}
    (hle : start ≤ stop) (hf : m.toSource? start = some (f, a)) (hg : m.toSource? stop = some (g, b))
    (hsame : Path.same f g = true) :
    (∃ r, m.toSourceRange? start stop = .ok (some (g, r)) ∧ r.start ≤ r.stop ∧
      ∃ s ∈ m.segments, s.file = g ∧ r.stop ≤ s.source.stop) ∨
    m.toSourceRange? start stop = .error .disordered ∧
      ((∃ s ∈ m.segments, s.generated.start ≤ start ∧ stop ≤ s.generated.stop ∧
        s.ReversesCode ⟨start, stop⟩) ∨
      ∃ a ∈ m.segments, ∃ b ∈ m.segments, Overlap a b ∧ a.generated.touches start = true ∧
        b.generated.touches stop = true) := by
  obtain ⟨first, hfirst, heq⟩ := Option.map_eq_some_iff.1 hf
  obtain ⟨last, hlast, heq'⟩ := Option.map_eq_some_iff.1 hg
  obtain ⟨rfl, -⟩ := Prod.mk.inj heq
  obtain ⟨rfl, -⟩ := Prod.mk.inj heq'
  obtain ⟨before, after, hsplit, -, hfirstStart, hfirstStop⟩ :=
    (segmentAt?_eq_some_iff h.contiguous).1 hfirst
  obtain ⟨before', after', hsplit', -, hlastStart, hlastStop⟩ :=
    (segmentAt?_eq_some_iff h.contiguous).1 hlast
  have hfirstMem : first ∈ m.segments := by rw [hsplit]; simp
  have hlastMem : last ∈ m.segments := by rw [hsplit']; simp
  obtain ⟨_, hstands⟩ := h.standsFor last hlastMem
  by_cases hone : last.generated.start ≤ start
  · rw [toSourceRange?_of_one hlast hone hle]
    rcases hstands.toSourceRange_cases hle hone hlastStop with ⟨r, hr, hin⟩ | ⟨hr, hreverses⟩
    · rw [hr]
      exact .inl ⟨r, rfl, hin.ordered, last, hlastMem, rfl, hin.upper⟩
    · rw [hr]
      exact .inr ⟨rfl, .inl ⟨last, hlastMem, hone, hlastStop, hreverses⟩⟩
  · have hafter := Nat.lt_of_not_le hone
    rw [toSourceRange?_of_two hlast hafter hfirst hsame]
    rcases Nat.lt_or_ge (last.toSource stop) (first.toSource start) with hlt | hge
    · rw [ordered_eq_error hlt]
      have hoverlap := h.overlap_of_code hfirstMem hlastMem hsame hfirstStart hafter hfirstStop
        hlastStop hlt
      exact .inr ⟨rfl, .inr ⟨first, hfirstMem, last, hlastMem, hoverlap,
        Span.touches_iff.2 ⟨hfirstStart, hfirstStop⟩, Span.touches_iff.2 ⟨hlastStart, hlastStop⟩⟩⟩
    · rw [ordered_eq_ok hge]
      exact .inl ⟨_, rfl, hge, last, hlastMem, rfl, (hstands.toSource_in hlastStop).2⟩

theorem Woven.stop_le (h : m.Woven) {s : Segment} (hs : s ∈ m.segments) :
    s.generated.stop ≤ size m.contents :=
  (h.contiguous.inOrder.inside s.generated (List.mem_map_of_mem hs)).upper

/-- A span of a file leads to a span of the code, to nothing, or it is disordered. -/
theorem Woven.toGeneratedRange?_cases (h : m.Woven) (file : String) {start stop : Nat}
    (hle : start ≤ stop) :
    m.toGeneratedRange? file start stop = .ok none ∨
    (∃ r, m.toGeneratedRange? file start stop = .ok (some r) ∧ r.In 0 (size m.contents)) ∨
    m.toGeneratedRange? file start stop = .error .disordered ∧
      ((∃ s ∈ m.segments, Path.same s.file file = true ∧ s.source.start ≤ start ∧
        stop ≤ s.source.stop ∧ s.ReversesSource ⟨start, stop⟩) ∨
      ∃ a ∈ m.segments, ∃ b ∈ m.segments, Overlap b a ∧ a.source.touches start = true ∧
        b.source.touches stop = true) := by
  cases hlast : m.segmentAtSource? file stop with
  | none =>
    left
    simp only [toGeneratedRange?, hlast]
    rfl
  | some last =>
    obtain ⟨hlastMem, hlastFile, hlastStart, hlastStop⟩ := segmentAtSource?_eq_some hlast
    obtain ⟨_, hstands⟩ := h.standsFor last hlastMem
    by_cases hone : last.source.start ≤ start
    · rw [toGeneratedRange?_of_one hlast hone hle]
      rcases hstands.toGeneratedRange_cases hle hlastStop with ⟨r, hr, hin⟩ | ⟨hr, hreverses⟩
      · rw [hr]
        exact .inr (.inl ⟨r, rfl, hin.mono (Nat.zero_le _) (h.stop_le hlastMem)⟩)
      · rw [hr]
        exact .inr (.inr ⟨rfl, .inl ⟨last, hlastMem, hlastFile, hone, hlastStop, hreverses⟩⟩)
    · have hafter := Nat.lt_of_not_le hone
      cases hfirst : m.segmentAtSource? file start with
      | none =>
        left
        simp only [toGeneratedRange?, hlast, if_neg hone, hfirst]
        rfl
      | some first =>
        obtain ⟨hfirstMem, hfirstFile, hfirstStart, hfirstStop⟩ := segmentAtSource?_eq_some hfirst
        have hsame : Path.same last.file first.file = true :=
          Path.same_iff.2 ((Path.same_iff.1 hlastFile).trans (Path.same_iff.1 hfirstFile).symm)
        rw [toGeneratedRange?_of_two hlast hafter hfirst]
        rcases Nat.lt_or_ge (last.toGenerated stop) (first.toGenerated start) with hlt | hge
        · rw [ordered_eq_error hlt]
          have hoverlap := h.overlap_of_source hfirstMem hlastMem hsame hfirstStart hafter hfirstStop
            hlastStop hlt
          exact .inr (.inr ⟨rfl, .inr ⟨first, hfirstMem, last, hlastMem, hoverlap,
            Span.touches_iff.2 ⟨hfirstStart, hfirstStop⟩,
            Span.touches_iff.2 ⟨hlastStart, hlastStop⟩⟩⟩)
        · rw [ordered_eq_ok hge]
          have hstop := (hstands.toGenerated_in hlastStop).2.trans (h.stop_le hlastMem)
          exact .inr (.inl ⟨_, rfl, Nat.zero_le _, hge, hstop⟩)

/-- Spans stay in order and in bounds on their way between the code of a woven module and its files, or
they are refused because their ends come in reverse. The latter takes segments that overlap in their
file, or a node around both ends that is as long as its code. -/
theorem spans_carried_in_bounds {reader : ScriptReader} (hreader : reader.Faithful) {env : Environment}
    {script : SourceFile} {companion : Option SourceFile} {m : Module}
    (h : weaveWith reader env script companion = .ok (some m))
    {start stop : Nat} (hle : start ≤ stop) :
    (∀ f g a b, m.toSource? start = some (f, a) → m.toSource? stop = some (g, b) →
      Path.same f g = true →
      (∃ r text, m.toSourceRange? start stop = .ok (some (g, r)) ∧ m.source? g = some text ∧
        r.start ≤ r.stop ∧
        ((∀ t, companion = some t → Path.same script.path t.path = false) → r.stop ≤ size text)) ∨
      m.toSourceRange? start stop = .error .disordered ∧
        ((∃ s ∈ m.segments, s.generated.start ≤ start ∧ stop ≤ s.generated.stop ∧
          s.ReversesCode ⟨start, stop⟩) ∨
        ∃ a ∈ m.segments, ∃ b ∈ m.segments, Overlap a b ∧ a.generated.touches start = true ∧
          b.generated.touches stop = true)) ∧
    ∀ file, m.toGeneratedRange? file start stop = .ok none ∨
      (∃ r, m.toGeneratedRange? file start stop = .ok (some r) ∧ r.In 0 (size m.contents)) ∨
      m.toGeneratedRange? file start stop = .error .disordered ∧
        ((∃ s ∈ m.segments, Path.same s.file file = true ∧ s.source.start ≤ start ∧
          stop ≤ s.source.stop ∧ s.ReversesSource ⟨start, stop⟩) ∨
        ∃ a ∈ m.segments, ∃ b ∈ m.segments, Overlap b a ∧ a.source.touches start = true ∧
          b.source.touches stop = true) := by
  have hwoven := woven_of_weave hreader h
  refine ⟨fun f g a b hf hg hsame => ?_, fun file => hwoven.toGeneratedRange?_cases file hle⟩
  rcases hwoven.toSourceRange?_cases hle hf hg hsame with ⟨r, hr, hordered, s, hs, rfl, hstop⟩ | hfault
  · obtain ⟨text, htext, hstands⟩ := source?_of_weave hreader h hs
    refine .inl ⟨r, text, hr, htext, hordered, fun hdistinct => ?_⟩
    exact hstop.trans (hstands hdistinct).source_in.upper
  · exact .inr hfault

theorem spans_carried_in_bounds_around_template :
    let script : SourceFile :=
      ⟨"a.gts", "let a = <template>é\x7b\x7b@name.size\x7d\x7d</template>;"⟩
    ∃ m a b, weaveWith .plain { native := some { typesModule := "types" } } script none = .ok (some m) ∧
      m.toSource? 4 = some ("a.gts", a) ∧ m.toSource? 244 = some ("a.gts", b) ∧
      ∃ r text, m.toSourceRange? 4 244 = .ok (some ("a.gts", r)) ∧
        m.source? "a.gts" = some text ∧ r.start ≤ r.stop ∧ r.stop ≤ size text := by
  intro script
  have hweave : ((weaveWith .plain { native := some { typesModule := "types" } } script none).toOption.join.any
      fun m => decide ((∀ a ∈ m.segments, ∀ b ∈ m.segments,
          a.generated.stop ≤ b.generated.start → a.source.stop ≤ b.source.start) ∧
        (m.segments.map fun s => (s.file, s.generated)) =
          [("a.gts", ⟨0, 8⟩), ("a.gts", ⟨8, 243⟩), ("a.gts", ⟨243, 244⟩)])) = true := by
    decide +kernel
  obtain ⟨m, hm, hcheck⟩ := exists_of_any hweave
  obtain ⟨happart, hsegments⟩ := of_decide_eq_true hcheck
  have hto (range : Span) (offset : Nat)
      (hmem : ("a.gts", range) ∈ m.segments.map fun s => (s.file, s.generated))
      (hstart : range.start < offset) (hstop : offset ≤ range.stop) :
      ∃ place, m.toSource? offset = some ("a.gts", place) := by
    obtain ⟨s, hs, heq⟩ := List.mem_map.1 hmem
    obtain ⟨hfile, rfl⟩ := Prod.mk.inj heq
    refine ⟨s.toSource offset, ?_⟩
    rw [toSource?, segmentAt?_of_mem (woven_of_weave ScriptReader.faithful_plain hm).contiguous hs hstart hstop,
      ← hfile]
    rfl
  rw [hsegments] at hto
  obtain ⟨a, ha⟩ := hto ⟨0, 8⟩ 4 (by decide) (by decide) (by decide)
  obtain ⟨b, hb⟩ := hto ⟨243, 244⟩ 244 (by decide) (by decide) (by decide)
  rcases (spans_carried_in_bounds ScriptReader.faithful_plain hm (by decide)).1 _ _ _ _ ha hb (Path.same_self _) with
    ⟨r, text, hr, htext, hle, hbound⟩ | ⟨-, ⟨s, hs, hstart, hstop, -⟩ | ⟨s, hs, t, ht, hoverlap, -⟩⟩
  · exact ⟨m, a, b, hm, ha, hb, r, text, hr, htext, hle, hbound nofun⟩
  · have hmem := List.mem_map_of_mem (f := fun s => (s.file, s.generated)) hs
    rw [hsegments] at hmem
    have hnone : ∀ p ∈ [("a.gts", (⟨0, 8⟩ : Span)), ("a.gts", ⟨8, 243⟩), ("a.gts", ⟨243, 244⟩)],
        ¬ (p.2.start ≤ 4 ∧ 244 ≤ p.2.stop) := by decide
    exact absurd ⟨hstart, hstop⟩ (hnone _ hmem)
  · exact absurd (happart s hs t ht hoverlap.2.1) (Nat.not_le.2 hoverlap.2.2)

end Module

end TypedTemplate
