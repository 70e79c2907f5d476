/-
Names keep their places. The code of a name leads to all of the name in its file, and each of its
positions to the same one of the name; and if the segments of the file do not overlap there, a position
inside the name leads to code that leads back to it.
-/
import TypedTemplate.Proofs.Module.Weave

namespace TypedTemplate

open Mapping Text

/-- A name in the mapping of a segment, not empty and with as much code as source. -/
structure Segment.HasName (s : Segment) (x : Tree) : Prop where
  mem : ∃ tree, s.mapping = some tree ∧ x ∈ tree.nodes
  isName : x.label.isName = true
  even : x.source.length = x.generated.length
  nonempty : 0 < x.source.length

theorem Segment.HasName.isNamed {s : Segment} {x : Tree} (hx : s.HasName x) : x.IsNamed := by
  have hpos := hx.nonempty
  rw [hx.even, Span.length] at hpos
  refine ⟨hx.isName, ?_⟩
  simp only [Span.isEmpty, beq_eq_false_iff_ne]
  omega

namespace Module

variable {m : Module} {s : Segment} {x : Tree}

section

variable (h : m.Woven) (hs : s ∈ m.segments) (hx : s.HasName x)
include h hs hx

/-- A name lies in its segment, and its code does not start with the code of the segment. -/
theorem Woven.name_in :
    x.source.In 0 s.source.length ∧ x.generated.In 0 s.generated.length ∧ 0 < x.generated.start := by
  obtain ⟨tree, htree, hmem⟩ := hx.mem
  obtain ⟨text, hstands⟩ := h.standsFor s hs
  have hspans := hstands.mapped tree htree
  obtain ⟨hsource, hgenerated⟩ := hspans.inside x hmem
  exact ⟨hsource, hgenerated, (hspans.named x hmem hx.isName).2⟩

theorem Woven.exists_sound : ∃ tree, s.mapping = some tree ∧ x ∈ tree.nodes ∧ tree.Sound := by
  obtain ⟨tree, htree, hmem⟩ := hx.mem
  obtain ⟨text, hstands⟩ := h.standsFor s hs
  exact ⟨tree, htree, hmem, ((hstands.mapped tree htree).named x hmem hx.isName).1⟩

/-- The code of a name is in its segment. -/
theorem Woven.segmentAt?_name {here : Nat} (hstart : x.generated.start ≤ here) (hstop : here ≤ x.generated.stop) :
    m.segmentAt? (here + s.generated.start) = some s := by
  obtain ⟨-, hgenerated, hpos⟩ := h.name_in hs hx
  have hupper := hgenerated.upper
  rw [Span.length] at hupper
  exact segmentAt?_of_mem h.contiguous hs (by omega) (by omega)

/-- From a position in the code of a name, its ends included, to the name. -/
theorem Woven.toSource?_name {d : Nat} (hd : d ≤ x.source.length) :
    m.toSource? ((x.generated.shift s.generated.start).start + d) =
      some (s.file, (x.source.shift s.source.start).start + d) := by
  obtain ⟨tree, htree, hmem, hsound⟩ := h.exists_sound hs hx
  obtain ⟨-, hgenerated, -⟩ := h.name_in hs hx
  have hstop : x.generated.start + d ≤ x.generated.stop := by
    have := hgenerated.ordered
    rw [hx.even, Span.length] at hd
    omega
  have hoffset : (x.generated.shift s.generated.start).start + d =
      x.generated.start + d + s.generated.start := by
    simp only [Span.shift]
    omega
  have hplace : x.source.start + (x.generated.start + d - x.generated.start) + s.source.start =
      (x.source.shift s.source.start).start + d := by
    simp only [Span.shift]
    omega
  rw [toSource?, hoffset, h.segmentAt?_name hs hx (Nat.le_add_right _ _) hstop, Option.map_some,
    Segment.toSource_named htree hsound hmem hx.isNamed hx.even (Nat.le_add_right _ _) hstop, hplace]

theorem Woven.toSourceRange?_name :
    m.toSourceRange? (x.generated.shift s.generated.start).start
        (x.generated.shift s.generated.start).stop =
      .ok (some (s.file, x.source.shift s.source.start)) := by
  obtain ⟨tree, htree, hmem, hsound⟩ := h.exists_sound hs hx
  obtain ⟨hsource, hgenerated, -⟩ := h.name_in hs hx
  have hlast : m.segmentAt? (x.generated.shift s.generated.start).stop = some s :=
    h.segmentAt?_name hs hx hgenerated.ordered le_rfl
  have hstart : s.generated.start ≤ (x.generated.shift s.generated.start).start :=
    Nat.le_add_left _ _
  have hle : (x.generated.shift s.generated.start).start ≤ (x.generated.shift s.generated.start).stop :=
    Nat.add_le_add_right hgenerated.ordered _
  have hrange := Segment.toSourceRange_named htree hsound hmem hx.isNamed hx.even hgenerated.ordered
    hsource.ordered
  rw [toSourceRange?_of_one hlast hstart hle, hrange]
  rfl

end

/-- From a position inside a name to code, and back. -/
theorem Woven.toGenerated?_name (h : m.Woven) (hseparate : m.Separate) (hs : s ∈ m.segments)
    (hx : s.HasName x) {d : Nat} (hpos : 0 < d) (hd : d < x.source.length) :
    ∃ t, m.toGenerated? s.file ((x.source.shift s.source.start).start + d) = some t ∧
      m.toSource? t = some (s.file, (x.source.shift s.source.start).start + d) := by
  obtain ⟨tree, htree, hmem, hsound⟩ := h.exists_sound hs hx
  obtain ⟨hsource, -, -⟩ := h.name_in hs hx
  have hstop : x.source.start + d < x.source.stop := by
    rw [Span.length] at hd
    omega
  -- the search may end at another name, which has the same source
  obtain ⟨n, hn, hnamed, hsame, heven, -, hgenerated⟩ := Segment.toGenerated_named htree hsound hmem
    hx.isName hx.even (Nat.lt_add_of_pos_right hpos) hstop
  have hname : s.HasName n :=
    ⟨⟨tree, htree, hn⟩, hnamed.1, heven, by rw [hsame]; exact hx.nonempty⟩
  have hplace : x.source.start + d + s.source.start = (x.source.shift s.source.start).start + d := by
    simp only [Span.shift]
    omega
  have hat : m.segmentAtSource? s.file ((x.source.shift s.source.start).start + d) = some s := by
    have hupper := hsource.upper
    rw [Span.length] at hupper
    exact segmentAtSource?_of_mem hseparate h.forward hs (by omega) (by omega)
  refine ⟨(n.generated.shift s.generated.start).start + d, ?_, ?_⟩
  · rw [toGenerated?, hat, Option.map_some, ← hplace, hgenerated]
    simp only [Span.shift, Option.some.injEq]
    omega
  · rw [h.toSource?_name hs hname (by rw [hsame]; exact hd.le), hsame]

/-- Names keep their places in a woven module. -/
theorem name_positions_exact {reader : ScriptReader} (hreader : reader.Faithful) {env : Environment}
    {script : SourceFile} {companion : Option SourceFile} {m : Module}
    (h : weaveWith reader env script companion = .ok (some m))
    {s : Segment} (hs : s ∈ m.segments) {x : Tree} (hx : s.HasName x) :
    let O := x.source.shift s.source.start
    let T := x.generated.shift s.generated.start
    m.toSourceRange? T.start T.stop = .ok (some (s.file, O)) ∧
      (∀ d ≤ x.source.length, m.toSource? (T.start + d) = some (s.file, O.start + d)) ∧
      (m.Separate → ∀ d, 0 < d → d < x.source.length →
        ∃ t, m.toGenerated? s.file (O.start + d) = some t ∧
          m.toSource? t = some (s.file, O.start + d)) := by
  have hwoven := woven_of_weave hreader h
  exact ⟨hwoven.toSourceRange?_name hs hx, fun d hd => hwoven.toSource?_name hs hx hd,
    fun hseparate d hpos hd => hwoven.toGenerated?_name hseparate hs hx hpos hd⟩

theorem name_positions_exact_property :
    let script : SourceFile :=
      ⟨"a.gts", "let a = <template>é\x7b\x7b@name.size\x7d\x7d</template>;"⟩
    ∃ m s x, weaveWith .plain { native := some { typesModule := "types" } } script none = .ok (some m) ∧
      s ∈ m.segments ∧ s.HasName x ∧ x.label = .name "size" ∧ m.Separate ∧
      m.toSourceRange? 201 205 = .ok (some ("a.gts", ⟨28, 32⟩)) ∧
      m.toSource? 203 = some ("a.gts", 30) ∧
      ∃ t, m.toGenerated? "a.gts" 30 = some t ∧ m.toSource? t = some ("a.gts", 30) := by
  intro script
  have hweave : ((weaveWith .plain { native := some { typesModule := "types" } } script none).toOption.join.any
      fun m => decide (m.Separate ∧ ∃ s ∈ m.segments, s.file = "a.gts" ∧ s.source = ⟨8, 45⟩ ∧
        s.generated = ⟨8, 243⟩ ∧ ∃ tree ∈ s.mapping.toList, ∃ x ∈ tree.nodes,
          x.label = .name "size" ∧ x.source = ⟨20, 24⟩ ∧ x.generated = ⟨193, 197⟩)) = true := by
    decide +kernel
  obtain ⟨m, hm, hcheck⟩ := exists_of_any hweave
  obtain ⟨hseparate, s, hs, hfile, hplace, hcode, tree, htree, x, hx, hlabel, hsource, hgenerated⟩ :=
    of_decide_eq_true hcheck
  have hname : s.HasName x := by
    refine ⟨⟨tree, Option.mem_toList.1 htree, hx⟩, by rw [hlabel]; rfl, ?_, ?_⟩
    · rw [hsource, hgenerated]
      rfl
    · rw [hsource]
      decide
  have hexact := name_positions_exact ScriptReader.faithful_plain hm hs hname
  rw [hsource, hgenerated, hplace, hcode, hfile] at hexact
  obtain ⟨hrange, hto, hback⟩ := hexact
  exact ⟨m, s, x, hm, hs, hname, hlabel, hseparate, hrange, hto 2 (by decide),
    hback hseparate 2 (by decide) (by decide)⟩

end Module

end TypedTemplate
