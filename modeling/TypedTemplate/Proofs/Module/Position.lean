/-
Positions in a module. Segments are found where they lie: in the code always, since they stand there one
after another, and in a file if they do so there too. In a segment with a sound mapping, the code and
the source of a name lead to each other position by position.
-/
import TypedTemplate.Module.Position
import TypedTemplate.Proofs.Mapping.Narrowest
import TypedTemplate.Proofs.Module.Splice

namespace TypedTemplate

open TypedTemplate.Span (In InOrder)

theorem Path.same_iff {p q : String} : same p q = true ↔ components p = components q := by
  rw [same, beq_iff_eq]

theorem Path.same_self (p : String) : same p p = true := same_iff.2 rfl

theorem Path.same_comm (p q : String) : same p q = same q p := by
  rw [Bool.eq_iff_iff, same_iff, same_iff]
  exact eq_comm

theorem ordered_eq_ok {start stop : Nat} (h : start ≤ stop) :
    ordered start stop = .ok ⟨start, stop⟩ :=
  if_pos h

theorem ordered_eq_error {start stop : Nat} (h : stop < start) :
    ordered start stop = .error .disordered :=
  if_neg (Nat.not_le.2 h)

/-! ## Names in a segment -/

namespace Segment

open Mapping

variable {s : Segment} {tree x : Tree} {here : Nat}

theorem toSource_of_narrowest {n : Tree} (hm : s.mapping = some tree)
    (hn : tree.narrowestGenerated (.empty here) = some n) :
    s.toSource (here + s.generated.start) = n.toSource here + s.source.start := by
  simp only [toSource, hm, Nat.add_sub_cancel, hn, Option.getD_some, Nat.add_comm]

theorem toGenerated_of_narrowest {n : Tree} (hm : s.mapping = some tree)
    (hn : tree.narrowestSource (.empty here) = some n) :
    s.toGenerated (here + s.source.start) = n.toGenerated here + s.generated.start := by
  simp only [toGenerated, hm, Nat.add_sub_cancel, hn, Option.getD_some, Nat.add_comm]

/-- From the code of a name, its ends included, to its source. -/
theorem toSource_named (hm : s.mapping = some tree) (h : tree.Sound) (hx : x ∈ tree.nodes) (hnamed : x.IsNamed)
    (hlength : x.source.length = x.generated.length) (hstart : x.generated.start ≤ here)
    (hstop : here ≤ x.generated.stop) :
    s.toSource (here + s.generated.start) =
      x.source.start + (here - x.generated.start) + s.source.start := by
  have hin : (Span.empty here).In x.generated.start x.generated.stop := ⟨hstart, le_rfl, hstop⟩
  rw [toSource_of_narrowest hm (Tree.narrowestGenerated_named h hx hnamed hin),
    Tree.toSource_of_even hlength]

/-- From all of the code of a name to all of its source. -/
theorem toSourceRange_named (hm : s.mapping = some tree) (h : tree.Sound) (hx : x ∈ tree.nodes)
    (hnamed : x.IsNamed) (hlength : x.source.length = x.generated.length)
    (hgenerated : x.generated.start ≤ x.generated.stop) (hsource : x.source.start ≤ x.source.stop) :
    s.toSourceRange (x.generated.shift s.generated.start) = .ok (x.source.shift s.source.start) := by
  have hin : x.generated.In x.generated.start x.generated.stop := ⟨le_rfl, hgenerated, le_rfl⟩
  have huneven : s.unevenGenerated? (x.generated.shift s.generated.start) = none := by
    simp only [unevenGenerated?, hm, Span.shift, Nat.add_sub_cancel, Option.bind_eq_bind,
      Option.bind_some, Tree.narrowestGenerated_named h hx hnamed hin, hlength, ne_eq,
      not_true_eq_false, if_false]
  have hend : x.source.start + (x.generated.stop - x.generated.start) = x.source.stop := by
    simp only [Span.length] at hlength
    omega
  rw [toSourceRange, huneven]
  simp only [Span.shift]
  rw [toSource_named hm h hx hnamed hlength le_rfl hgenerated,
    toSource_named hm h hx hnamed hlength hgenerated le_rfl, hend, Nat.sub_self, Nat.add_zero]
  exact ordered_eq_ok (Nat.add_le_add_right hsource _)

/-- From inside the source of a name to its code, or to that of a name which says the same. -/
theorem toGenerated_named (hm : s.mapping = some tree) (h : tree.Sound) (hx : x ∈ tree.nodes)
    (hname : x.label.isName = true) (hlength : x.source.length = x.generated.length) (hstart : x.source.start < here)
    (hstop : here < x.source.stop) :
    ∃ n ∈ tree.nodes, n.IsNamed ∧ n.source = x.source ∧ n.source.length = n.generated.length ∧
      n.generated.start + (here - x.source.start) < n.generated.stop ∧
      s.toGenerated (here + s.source.start) =
        n.generated.start + (here - x.source.start) + s.generated.start := by
  obtain ⟨n, hn, hfound, hlabel, hsource, hgenerated⟩ :=
    Tree.narrowestSource_named h hx hname hstart hstop
  have heven : n.source.length = n.generated.length := by rw [hsource, hgenerated, hlength]
  have hlt : n.generated.start + (here - x.source.start) < n.generated.stop := by
    rw [← hlength] at hgenerated
    simp only [Span.length] at hgenerated
    omega
  refine ⟨n, hn, ⟨by rw [hlabel]; exact hname, ?_⟩, hsource, heven, hlt, ?_⟩
  · simp only [Span.isEmpty, beq_eq_false_iff_ne]
    omega
  · rw [toGenerated_of_narrowest hm hfound, Tree.toGenerated_of_even heven, hsource]

end Segment

namespace Module

variable {m : Module} {offset : Nat} {s : Segment}

/-! ## Segments at a position -/

theorem Contiguous.inOrder {hi : Nat} :
    ∀ {ss : List Segment} {lo : Nat}, Contiguous lo ss hi → InOrder lo (ss.map (·.generated)) hi
  | [], _, h => Nat.le_of_eq h
  | s :: ss, lo, ⟨hs, h⟩ => by
    refine ⟨?_, ?_, h.inOrder⟩
    · show lo ≤ s.generated.start
      rw [hs]
    · show s.generated.start ≤ s.generated.stop
      rw [hs]
      exact Nat.le_add_right _ _

theorem segmentAt?_eq_some_iff {hi : Nat} (h : Contiguous 0 m.segments hi) :
    m.segmentAt? offset = some s ↔
      ∃ before after, m.segments = before ++ s :: after ∧
        (∀ b ∈ before, b.generated.stop < offset) ∧
        s.generated.start ≤ offset ∧ offset ≤ s.generated.stop :=
  h.inOrder.first_iff

/-- A position after the start of a segment is in that segment. -/
theorem segmentAt?_of_mem {hi : Nat} (h : Contiguous 0 m.segments hi) (hs : s ∈ m.segments)
    (hstart : s.generated.start < offset) (hstop : offset ≤ s.generated.stop) : m.segmentAt? offset = some s := by
  obtain ⟨before, after, hsplit⟩ := List.append_of_mem hs
  refine (segmentAt?_eq_some_iff h).2 ⟨before, after, hsplit, fun b hb => ?_, hstart.le, hstop⟩
  have hp := List.pairwise_map.1 h.inOrder.pairwise
  rw [hsplit] at hp
  have hle := (List.pairwise_append.1 hp).2.2 b hb s List.mem_cons_self
  omega

/-- The segments of a file do not overlap in the file, and come there in the order of the code. -/
def Separate (m : Module) : Prop :=
  m.segments.Pairwise fun a b => Path.same a.file b.file = true → a.source.stop ≤ b.source.start

instance (m : Module) : Decidable m.Separate :=
  inferInstanceAs (Decidable (m.segments.Pairwise fun (a b : Segment) =>
    Path.same a.file b.file = true → a.source.stop ≤ b.source.start))

theorem Separate.pairwise (h : m.Separate) (file : String) :
    (m.segments.filter fun s => Path.same s.file file).Pairwise fun a b =>
      a.source.stop ≤ b.source.start := by
  refine (h.filter _).imp_of_mem fun {a b} ha hb hab => hab ?_
  have ha := Path.same_iff.1 (List.mem_filter.1 ha).2
  have hb := Path.same_iff.1 (List.mem_filter.1 hb).2
  exact Path.same_iff.2 (ha.trans hb.symm)

/-- Segments whose sources are spans that do not end before they start. -/
def Forward (m : Module) : Prop := ∀ s ∈ m.segments, s.source.start ≤ s.source.stop

theorem segmentsOf_eq (h : m.Separate) (hf : m.Forward) (file : String) :
    m.segmentsOf file = m.segments.filter fun s => Path.same s.file file := by
  refine List.mergeSort_of_pairwise ((h.pairwise file).imp_of_mem fun {a b} ha _ hab => ?_)
  exact decide_eq_true ((hf a (List.mem_filter.1 ha).1).trans hab)

theorem inOrder_segmentsOf (h : m.Separate) (hf : m.Forward) (file : String) :
    ∃ hi, InOrder 0 ((m.segmentsOf file).map (·.source)) hi := by
  rw [segmentsOf_eq h hf]
  generalize hss : (m.segments.filter fun s => Path.same s.file file).map (·.source) = ss
  refine ⟨(ss.map (·.stop)).sum, Span.inOrder_of_pairwise (Nat.zero_le _) (fun s hs => ?_) ?_⟩
  · refine ⟨Nat.zero_le _, ?_, List.single_le_sum (by simp) _ (List.mem_map_of_mem hs)⟩
    rw [← hss] at hs
    obtain ⟨a, ha, rfl⟩ := List.mem_map.1 hs
    exact hf a (List.mem_filter.1 ha).1
  · rw [← hss]
    exact List.pairwise_map.2 (h.pairwise file)

theorem segmentAtSource?_eq_some_iff {file : String} (h : m.Separate) (hf : m.Forward) :
    m.segmentAtSource? file offset = some s ↔
      ∃ before after,
        (m.segments.filter fun s => Path.same s.file file) = before ++ s :: after ∧
        (∀ b ∈ before, b.source.stop < offset) ∧
        s.source.start ≤ offset ∧ offset ≤ s.source.stop := by
  obtain ⟨hi, hin⟩ := inOrder_segmentsOf h hf file
  rw [← segmentsOf_eq h hf]
  exact hin.first_iff

/-- A position of a file after the start of a segment's source is in that segment. -/
theorem segmentAtSource?_of_mem (h : m.Separate) (hf : m.Forward) (hs : s ∈ m.segments)
    (hstart : s.source.start < offset) (hstop : offset ≤ s.source.stop) :
    m.segmentAtSource? s.file offset = some s := by
  have hmem : s ∈ m.segments.filter fun t => Path.same t.file s.file :=
    List.mem_filter.2 ⟨hs, Path.same_self s.file⟩
  obtain ⟨before, after, hsplit⟩ := List.append_of_mem hmem
  refine (segmentAtSource?_eq_some_iff h hf).2
    ⟨before, after, hsplit, fun b hb => ?_, hstart.le, hstop⟩
  have hp := h.pairwise s.file
  rw [hsplit] at hp
  have hle := (List.pairwise_append.1 hp).2.2 b hb s List.mem_cons_self
  omega

/-- Whatever the segments, the one at a position of a file is a segment of that file around it. -/
theorem segmentAtSource?_eq_some {file : String} (h : m.segmentAtSource? file offset = some s) :
    s ∈ m.segments ∧ Path.same s.file file = true ∧ s.source.start ≤ offset ∧
      offset ≤ s.source.stop := by
  unfold segmentAtSource? at h
  obtain ⟨t, ht, hif⟩ := Option.bind_eq_some_iff.1 h
  split at hif
  · rename_i hstart
    cases hif
    have hmem : s ∈ m.segmentsOf file := List.mem_of_getElem? ht
    obtain ⟨hs, hsame⟩ := List.mem_filter.1 ((List.mergeSort_perm _ _).mem_iff.1 hmem)
    have hstop := not_of_getElem?_partitionPoint ht
    exact ⟨hs, hsame, hstart, Nat.le_of_not_lt (of_decide_eq_false hstop)⟩
  · cases hif

/-! ## Spans in one segment, and from one to another -/

section
variable {first last : Segment} {file : String} {start stop : Nat}

theorem toSourceRange?_of_one (hlast : m.segmentAt? stop = some last)
    (hstart : last.generated.start ≤ start) (hle : start ≤ stop) :
    m.toSourceRange? start stop =
      (last.toSourceRange ⟨start, stop⟩).map fun r => some (last.file, r) := by
  simp only [toSourceRange?, hlast, if_pos hstart, ordered_eq_ok hle]
  rfl

theorem toSourceRange?_of_two (hlast : m.segmentAt? stop = some last)
    (hstart : start < last.generated.start) (hfirst : m.segmentAt? start = some first)
    (hsame : Path.same first.file last.file = true) :
    m.toSourceRange? start stop =
      (ordered (first.toSource start) (last.toSource stop)).map fun r => some (last.file, r) := by
  simp only [toSourceRange?, hlast, if_neg (Nat.not_le.2 hstart), hfirst, hsame]
  rfl

theorem toGeneratedRange?_of_one (hlast : m.segmentAtSource? file stop = some last)
    (hstart : last.source.start ≤ start) (hle : start ≤ stop) :
    m.toGeneratedRange? file start stop = (last.toGeneratedRange ⟨start, stop⟩).map some := by
  simp only [toGeneratedRange?, hlast, if_pos hstart, ordered_eq_ok hle]
  rfl

theorem toGeneratedRange?_of_two (hlast : m.segmentAtSource? file stop = some last)
    (hstart : start < last.source.start) (hfirst : m.segmentAtSource? file start = some first) :
    m.toGeneratedRange? file start stop =
      (ordered (first.toGenerated start) (last.toGenerated stop)).map some := by
  simp only [toGeneratedRange?, hlast, if_neg (Nat.not_le.2 hstart), hfirst]
  rfl

end

end Module

end TypedTemplate
