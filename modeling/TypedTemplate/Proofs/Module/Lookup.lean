/-
Looking up positions in a module. In code, a position belongs to the first segment around it, and every
position of the code has one; in a file, to the first segment of that file around it, if there is one.
Either way the answer lies in the other span of that segment, and what is kept of the script is carried
there and back without loss.
-/
import TypedTemplate.Proofs.Module.Weave

namespace TypedTemplate

open Text
open TypedTemplate.Span (In InOrder)

namespace Mapping.Tree

variable {t : Tree}

/-- The spans of a child lie in those of its parent, throughout the tree. -/
def Nested (t : Tree) : Prop :=
  ∀ n ∈ t.nodes, ∀ c ∈ n.children,
    c.source.In n.source.start n.source.stop ∧ c.generated.In n.generated.start n.generated.stop

theorem Sound.nested (h : t.Sound) : t.Nested :=
  fun n hn c hc => ⟨(h n hn).sources c hc,
    (h n hn).inOrder.inside c.generated (List.mem_map_of_mem hc)⟩

theorem Nested.child {c : Tree} (h : t.Nested) (hc : c ∈ t.children) : c.Nested :=
  fun n hn => h n (mem_nodes.2 (.inr ⟨c, hc, hn⟩))

/-- Every node lies in the root, if the spans of the root do not end before they start. -/
theorem Nested.inside {n : Tree} (h : t.Nested) (hn : n ∈ t.nodes) (hs : t.source.start ≤ t.source.stop)
    (hg : t.generated.start ≤ t.generated.stop) :
    n.source.In t.source.start t.source.stop ∧
      n.generated.In t.generated.start t.generated.stop := by
  induction t using children_induction with
  | node t ih =>
    rcases mem_nodes.1 hn with rfl | ⟨c, hc, hn⟩
    · exact ⟨⟨le_rfl, hs, le_rfl⟩, le_rfl, hg, le_rfl⟩
    · obtain ⟨hsource, hgenerated⟩ := h t (self_mem_nodes t) c hc
      obtain ⟨hs', hg'⟩ := ih c hc (h.child hc) hn hsource.ordered hgenerated.ordered
      exact ⟨hs'.mono hsource.lower hsource.upper, hg'.mono hgenerated.lower hgenerated.upper⟩

section
variable {offset : Nat}

end

end Mapping.Tree

/-! ## Positions in a segment -/

/-- A segment that carries every position of its code into its source and back: without a mapping the two
are equally long, else they are the two spans of the root of a nested mapping. -/
structure Segment.Carries (s : Segment) : Prop where
  source_ordered : s.source.start ≤ s.source.stop
  code_ordered : s.generated.start ≤ s.generated.stop
  plain : s.mapping = none → s.source.length = s.generated.length
  mapped : ∀ tree, s.mapping = some tree → tree.Nested ∧
    tree.source = ⟨0, s.source.length⟩ ∧ tree.generated = ⟨0, s.generated.length⟩

namespace Segment.Carries

variable {s : Segment} {offset : Nat}

end Segment.Carries

namespace Module

/-! ## Replacements that a module is made of -/

/-- A replacement as weaving makes it: of a stretch of the script by what that stretch holds, or by all of
the companion; with a nested mapping between that source and the code. -/
structure Replacement.Regular (script : SourceFile) (companion : Option SourceFile) (r : Replacement) :
    Prop where
  range_in : r.range.In 0 (size script.contents)
  origin : r.file = script.path ∧ r.source = r.range ∨
    ∃ t, companion = some t ∧ r.file = t.path ∧ r.source = .ofText t.contents
  nested : r.compiled.mapping.Nested
  source_eq : r.compiled.mapping.source = ⟨0, r.source.length⟩
  generated_eq : r.compiled.mapping.generated = .ofText r.compiled.code

/-- Replacements in the order of the script, of which at most one is the companion. -/
structure Regular (script : SourceFile) (companion : Option SourceFile) (rs : List Replacement) :
    Prop where
  each : ∀ r ∈ rs, r.Regular script companion
  sorted : rs.Pairwise fun a b => a.range.stop ≤ b.range.start
  once : rs.Pairwise fun a b => a.file = script.path ∨ b.file = script.path
  distinct : ∀ t, companion = some t → Path.same t.path script.path = false
  /-- There is a module only if there is something to put into the script, or something in it. -/
  nonempty : rs ≠ [] ∨ script.contents ≠ ""

section
variable {script : SourceFile} {companion : Option SourceFile} {r : Replacement} {rs : List Replacement}

theorem Replacement.Regular.source_ordered (h : r.Regular script companion) : r.source.start ≤ r.source.stop := by
  rcases h.origin with ⟨-, hsource⟩ | ⟨t, -, -, hsource⟩
  · rw [hsource]
    exact h.range_in.ordered
  · rw [hsource]
    exact Nat.zero_le _

theorem Replacement.Regular.carries (h : r.Regular script companion) (start : Nat) : (r.segment start).Carries := by
  refine ⟨h.source_ordered, Nat.le_add_right _ _, nofun, fun tree htree => ?_⟩
  cases htree
  refine ⟨h.nested, h.source_eq, ?_⟩
  rw [h.generated_eq, Replacement.segment, Span.length, Nat.add_sub_cancel_left]
  rfl

/-- A replacement is of the script's own file, or of a file with another path. -/
theorem Replacement.Regular.own_or_other (h : r.Regular script companion)
    (hdistinct : ∀ t, companion = some t → Path.same t.path script.path = false) :
    r.file = script.path ∧ r.source = r.range ∨ Path.same r.file script.path = false := by
  rcases h.origin with hown | ⟨t, hc, hfile, -⟩
  · exact .inl hown
  · rw [hfile]
    exact .inr (hdistinct t hc)

theorem Regular.tail (hrs : ∀ q ∈ r :: rs, q.Regular script companion) : ∀ q ∈ rs, q.Regular script companion :=
  fun q hq => hrs q (List.mem_cons_of_mem r hq)

/-- What is of the script's own file lies in the stretch of the script that is spliced. -/
theorem Splice.own_in {lo hi : Nat} {ss : List Segment} (h : Splice script lo rs ss hi)
    (hrs : ∀ r ∈ rs, r.Regular script companion)
    (hdistinct : ∀ t, companion = some t → Path.same t.path script.path = false) :
    ∀ s ∈ ss, Path.same s.file script.path = true → s.source.In lo hi := by
  induction h with
  | done => nofun
  | @kept hi rs s ss _ _ _ hlt hrest ih =>
    have hle := hrest.inOrder.le
    intro t ht hsame
    rcases List.mem_cons.1 ht with rfl | ht
    · exact ⟨le_rfl, hlt.le, hle⟩
    · exact (ih hrs t ht hsame).mono hlt.le le_rfl
  | @replaced hi start r rs ss hle hrest ih =>
    have hstop := hrest.inOrder.le
    intro t ht hsame
    rcases List.mem_cons.1 ht with rfl | ht
    · rcases (hrs r List.mem_cons_self).own_or_other hdistinct with ⟨-, hsource⟩ | hother
      · show r.source.In _ _
        rw [hsource]
        exact ⟨le_rfl, hle, hstop⟩
      · exact absurd (hother.symm.trans hsame) Bool.false_ne_true
    · exact (ih (Regular.tail hrs) t ht hsame).mono hle le_rfl

/-- The segments of one file do not overlap in it, and come there in the order of the code. -/
theorem Splice.separate {lo hi : Nat} {ss : List Segment} (h : Splice script lo rs ss hi)
    (hrs : ∀ r ∈ rs, r.Regular script companion)
    (honce : rs.Pairwise fun a b => a.file = script.path ∨ b.file = script.path)
    (hdistinct : ∀ t, companion = some t → Path.same t.path script.path = false) :
    ss.Pairwise fun a b => Path.same a.file b.file = true → a.source.stop ≤ b.source.start := by
  induction h with
  | done => exact .nil
  | @kept hi rs s ss _ hfile _ _ hrest ih =>
    refine .cons (fun t ht hsame => ?_) (ih hrs honce)
    rw [hfile] at hsame
    refine (hrest.own_in hrs hdistinct t ht ?_).lower
    exact Path.same_iff.2 (Path.same_iff.1 hsame).symm
  | @replaced hi start r rs ss hle hrest ih =>
    have hrest' := List.pairwise_cons.1 honce
    refine .cons (fun t ht hsame => ?_) (ih (Regular.tail hrs) hrest'.2)
    have hsame : Path.same r.file t.file = true := hsame
    rcases (hrs r List.mem_cons_self).own_or_other hdistinct with ⟨hfile, hsource⟩ | hother
    · rw [hfile] at hsame
      show r.source.stop ≤ _
      rw [hsource]
      refine (hrest.own_in (Regular.tail hrs) hdistinct t ht ?_).lower
      exact Path.same_iff.2 (Path.same_iff.1 hsame).symm
    · -- all that follows the companion is of the script
      have hown : t.file = script.path := by
        refine hrest.file_eq (fun q hq => (hrest'.1 q hq).resolve_left fun hfile => ?_) t ht
        rw [hfile, Path.same_self] at hother
        cases hother
      rw [hown] at hsame
      exact absurd (hother.symm.trans hsame) Bool.false_ne_true

end

/-- A module whose segments stand one after another in its code and, file by file, in its files, and which
carry all their positions. -/
structure Located (m : Module) : Prop where
  contiguous : Contiguous 0 m.segments (size m.contents)
  nonempty : m.segments ≠ []
  separate : m.Separate
  carries : ∀ s ∈ m.segments, s.Carries

theorem Located.forward {m : Module} (h : m.Located) : m.Forward :=
  fun s hs => (h.carries s hs).source_ordered

theorem Regular.located {script : SourceFile} {companion : Option SourceFile} {rs : List Replacement}
    (h : Regular script companion rs) {m : Module} (hm : correlate script 0 0 rs = some m.segments) :
    m.Located := by
  obtain ⟨⟨stop, hcontiguous⟩, hverbatim⟩ := contiguous_correlate hm
  have hranges : InOrder 0 (rs.map (·.range)) (size script.contents) := by
    refine Span.inOrder_of_pairwise (Nat.zero_le _) (fun s hs => ?_) (List.pairwise_map.2 h.sorted)
    obtain ⟨r, hr, rfl⟩ := List.mem_map.1 hs
    exact (h.each r hr).range_in
  have hsplice := splice_correlate hm hranges
  refine ⟨hcontiguous.stop_eq_size ▸ hcontiguous, fun hnil => ?_,
    hsplice.separate h.each h.once h.distinct, fun s hs => ?_⟩
  · -- without segments there is no replacement, and the script is empty
    rw [hnil] at hsplice
    generalize hsize : size script.contents = n at hsplice
    generalize hzero : 0 = lo at hsplice
    cases hsplice with
    | done =>
      refine h.nonempty.elim (fun hne => hne rfl) fun hne => hne ?_
      exact String.utf8ByteSize_eq_zero_iff.1 (hsize.trans hzero.symm)
  · cases hmapping : s.mapping with
    | none =>
      obtain ⟨-, hslice⟩ := hverbatim s hs hmapping
      have hsource := (size_of_slice hslice).1
      have hcode := (size_of_slice (hcontiguous.slice_contents s hs)).1
      refine ⟨by omega, by omega, fun _ => ?_, by rw [hmapping]; nofun⟩
      simp only [Span.length]
      omega
    | some tree =>
      obtain ⟨r, hr, start, rfl⟩ := mem_correlate hmapping hm hs
      exact (h.each r hr).carries start

/-- Some segment is around every position from the start of the first to the end of the last. -/
theorem Contiguous.exists_touches {hi : Nat} :
    ∀ {ss : List Segment} {lo : Nat}, Contiguous lo ss hi → ss ≠ [] → ∀ {offset}, lo ≤ offset →
      offset ≤ hi → ∃ s ∈ ss, s.generated.touches offset = true
  | [], _, _, hne, _, _, _ => absurd rfl hne
  | s :: ss, lo, ⟨hs, h⟩, _, offset, hlo, hhi => by
    have hstart : s.generated.start = lo := by rw [hs]
    by_cases hstop : offset ≤ s.generated.stop
    · exact ⟨s, List.mem_cons_self, Span.touches_iff.2 ⟨hstart.trans_le hlo, hstop⟩⟩
    · have hlt := Nat.lt_of_not_le hstop
      have hne : ss ≠ [] := by
        rintro rfl
        have hend : s.generated.stop = hi := h
        omega
      obtain ⟨t, ht, htouches⟩ := h.exists_touches hne hlt.le hhi
      exact ⟨t, List.mem_cons_of_mem s ht, htouches⟩

namespace Located

variable {m : Module} {offset : Nat}

variable (h : m.Located)
include h

end Located

end Module

end TypedTemplate
