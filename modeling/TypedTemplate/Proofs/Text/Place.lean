/-
Places of a text and the stretches between them. Reading goes from one place to a later one by passing over
some characters, and what is passed over is the slice of the text between the two positions. So the positions of
places never leave the text and never cut a character.
-/
import TypedTemplate.Proofs.Cursor
import TypedTemplate.Proofs.Span
import TypedTemplate.Proofs.Text.Slice

namespace TypedTemplate

open Text

/-! ## Stretches of a text -/

namespace Span

variable {source : String} {s t : Span}

/-- The span is a stretch of a text: in order, in the text and between characters. -/
def Cuts (s : Span) (source : String) : Prop := ∃ text, s.slice source = some text

theorem cuts_iff : s.Cuts source ↔ s.start ≤ s.stop ∧ Boundary source s.start ∧ Boundary source s.stop := by
  constructor
  · rintro ⟨text, h⟩
    obtain ⟨before, after, hsource, hstart, hstop⟩ := slice_eq_some_iff.1 h
    refine ⟨by omega, ⟨before, _, hsource, hstart⟩, before ++ text.toList, after, ?_, ?_⟩
    · rw [hsource, List.append_assoc]
    · rw [hstop, hstart, byteLength_append, size_eq_byteLength]
  · rintro ⟨hle, hstart, hstop⟩
    exact exists_slice hstart hstop hle

theorem Cuts.cover (hs : s.Cuts source) (ht : t.Cuts source) : (s.cover t).Cuts source := by
  obtain ⟨hle, hstart, hstop⟩ := cuts_iff.1 hs
  obtain ⟨-, hstart', hstop'⟩ := cuts_iff.1 ht
  refine cuts_iff.2 ⟨(min_le_left _ _).trans (hle.trans (le_max_left _ _)), ?_, ?_⟩
  · rcases min_choice s.start t.start with h | h <;> simp only [Span.cover, h] <;> assumption
  · rcases max_choice s.stop t.stop with h | h <;> simp only [Span.cover, h] <;> assumption

theorem Cuts.empty_stop (h : s.Cuts source) : (Span.empty s.stop).Cuts source := by
  obtain ⟨-, -, hstop⟩ := cuts_iff.1 h
  exact cuts_iff.2 ⟨le_rfl, hstop, hstop⟩

/-- A stretch of a text that lies in another stretch. -/
structure CutsIn (s : Span) (source : String) (t : Span) : Prop where
  cuts : s.Cuts source
  inside : s.In t.start t.stop

theorem Cuts.cutsIn_self (h : s.Cuts source) : s.CutsIn source s :=
  ⟨h, le_rfl, (cuts_iff.1 h).1, le_rfl⟩

/-- A stretch of a part, where the part stands. -/
theorem Cuts.shift {part : String} (hs : s.Cuts part) (ht : t.slice source = some part) :
    (s.shift t.start).CutsIn source t := by
  obtain ⟨text, hs⟩ := hs
  obtain ⟨hstop, -⟩ := size_of_slice ht
  obtain ⟨hlast, hle⟩ := size_of_slice hs
  refine ⟨⟨text, ?_⟩, Nat.le_add_left _ _, ?_, ?_⟩
  · rw [Span.slice, Span.shift, Nat.add_comm s.start, Nat.add_comm s.stop]
    exact slice_of_slice ht hs
  · simp only [Span.shift]
    omega
  · simp only [Span.shift]
    omega

/-- A stretch of a text, counted from the start of a part around it. -/
theorem CutsIn.slice {part text : String} (h : s.CutsIn source t) (hs : s.slice source = some text)
    (ht : t.slice source = some part) :
    (⟨s.start - t.start, s.stop - t.start⟩ : Span).slice part = some text := by
  obtain ⟨-, hstart, hstop⟩ := cuts_iff.1 h.cuts
  obtain ⟨hlower, hle, hupper⟩ := h.inside
  obtain ⟨text', htext⟩ := exists_slice (hstart.of_slice ht hlower (hle.trans hupper))
    (hstop.of_slice ht (hlower.trans hle) hupper) (Nat.sub_le_sub_right hle _)
  have hwhole := slice_of_slice ht htext
  rw [Nat.add_sub_cancel' hlower, Nat.add_sub_cancel' (hlower.trans hle)] at hwhole
  rw [Span.slice] at hs ⊢
  rw [htext, ← hs, hwhole]

/-- Spans one after another, without a gap and none of them empty, from `lo` to `hi`. -/
def Tile (lo : Nat) : List Span → Nat → Prop
  | [], hi => lo = hi
  | s :: ss, hi => s.start = lo ∧ s.start < s.stop ∧ Tile s.stop ss hi

theorem Tile.append {ss ts : List Span} {lo mid hi : Nat} (hs : Tile lo ss mid) (ht : Tile mid ts hi) :
    Tile lo (ss ++ ts) hi := by
  induction ss generalizing lo with
  | nil => exact (show lo = mid from hs) ▸ ht
  | cons s ss ih => exact ⟨hs.1, hs.2.1, ih hs.2.2⟩

theorem Tile.inOrder {lo hi : Nat} : ∀ {ss : List Span}, Tile lo ss hi → InOrder lo ss hi
  | [], h => Nat.le_of_eq h
  | _ :: _, ⟨hstart, hlt, h⟩ => ⟨hstart.ge, hlt.le, h.inOrder⟩

theorem Tile.pos {ss : List Span} {lo hi : Nat} (h : Tile lo ss hi) {s : Span} (hs : s ∈ ss) : s.start < s.stop := by
  induction ss generalizing lo with
  | nil => cases hs
  | cons r ss ih =>
    rcases List.mem_cons.1 hs with rfl | hs
    · exact h.2.1
    · exact ih h.2.2 hs

end Span

/-! ## Places -/

namespace Cursor

variable {source text more : String} {c d e : Cursor}

/-- A place of a text. -/
def On (source : String) (c : Cursor) : Prop := (ofText source).Reaches c

/-- `d` is where `c` gets by passing over a text. -/
structure Passes (c : Cursor) (text : String) (d : Cursor) : Prop where
  rest : c.rest = text.toList ++ d.rest
  pos : d.pos = c.pos + size text

namespace Passes

theorem reaches (h : c.Passes text d) : c.Reaches d :=
  ⟨text.toList, h.rest, by rw [h.pos, size_eq_byteLength]⟩

theorem nil (c : Cursor) : c.Passes "" c := ⟨rfl, rfl⟩

theorem trans (h : c.Passes text d) (h' : d.Passes more e) : c.Passes (text ++ more) e where
  rest := by rw [h.rest, h'.rest, String.toList_append, List.append_assoc]
  pos := by rw [h'.pos, h.pos, size_append, Nat.add_assoc]

theorem length_lt (h : c.Passes text d) (htext : text ≠ "") : d.rest.length < c.rest.length := by
  have hpos : 0 < text.toList.length := List.length_pos_iff.2 fun hnil => htext (String.toList_eq_nil_iff.1 hnil)
  rw [h.rest, List.length_append]
  omega

theorem length_eq (h : c.Passes text d) : c.rest.length = text.toList.length + d.rest.length := by
  rw [h.rest, List.length_append]

end Passes

theorem Reaches.passes (h : c.Reaches d) : ∃ text, c.Passes text d := by
  obtain ⟨taken, hrest, hpos⟩ := h
  refine ⟨String.ofList taken, ?_, ?_⟩
  · rw [String.toList_ofList, hrest]
  · rw [hpos, size_eq_byteLength, String.toList_ofList]

theorem Reaches.length_le (h : c.Reaches d) : d.rest.length ≤ c.rest.length := by
  obtain ⟨text, h⟩ := h.passes
  have := h.length_eq
  omega

/-- A place that is further on has fewer characters after it. -/
theorem Reaches.length_lt (h : c.Reaches d) (hlt : c.pos < d.pos) : d.rest.length < c.rest.length := by
  obtain ⟨taken, hrest, hpos⟩ := h
  cases taken with
  | nil => simp [hpos] at hlt
  | cons x xs =>
    rw [hrest, List.length_append, List.length_cons]
    omega

theorem Reaches.pos_lt (h : c.Reaches d) (hlt : d.rest.length < c.rest.length) : c.pos < d.pos := by
  obtain ⟨taken, hrest, hpos⟩ := h
  cases taken with
  | nil => simp [hrest] at hlt
  | cons x xs =>
    have := x.utf8Size_pos
    rw [hpos, byteLength_cons]
    omega

/-- There is one place at a position. -/
theorem Reaches.eq_of_pos (h : c.Reaches d) (hpos : d.pos = c.pos) : d = c := by
  have hlength : d.rest.length = c.rest.length := by
    have hle := h.length_le
    by_contra hne
    have := h.pos_lt (by omega)
    omega
  obtain ⟨taken, hrest, -⟩ := h
  have htaken : taken = [] := by
    rw [hrest, List.length_append] at hlength
    exact List.length_eq_zero_iff.1 (by omega)
  rw [htaken, List.nil_append] at hrest
  cases c
  cases d
  simp_all

/-- A span that stands between two places, with a character in it at least. -/
structure Covers (c : Cursor) (s : Span) (d : Cursor) : Prop where
  reaches : c.Reaches d
  length_lt : d.rest.length < c.rest.length
  span : s = ⟨c.pos, d.pos⟩

theorem Covers.tile {s : Span} {ss : List Span} {hi : Nat} (hs : c.Covers s d) (h : Span.Tile d.pos ss hi) :
    Span.Tile c.pos (s :: ss) hi := by
  obtain ⟨hreach, hlt, rfl⟩ := hs
  exact ⟨rfl, hreach.pos_lt hlt, h⟩

theorem Covers.span_in {s : Span} (h : c.Covers s d) : s.In c.pos d.pos := by
  rw [h.span]
  exact ⟨le_rfl, h.reaches.pos_le, le_rfl⟩

theorem Covers.span_lt {s : Span} (h : c.Covers s d) : s.start < s.stop := by
  rw [h.span]
  exact h.reaches.pos_lt h.length_lt

theorem passes_advance (c : Cursor) (n : Nat) : c.Passes (String.ofList (c.rest.take n)) (c.advance n) where
  rest := by rw [String.toList_ofList]; exact (List.take_append_drop n c.rest).symm
  pos := by rw [size_eq_byteLength, String.toList_ofList]; rfl

theorem passes_skipWhile (p : Char → Bool) (c : Cursor) : c.Passes (c.run p) (c.skipWhile p) where
  rest := by rw [run, String.toList_ofList]; exact List.takeWhile_append_dropWhile.symm
  pos := c.pos_skipWhile p

theorem passes_of_rest {rest : List Char} (h : c.rest = text.toList ++ rest) {n : Nat}
    (hn : text.toList.length = n) : c.Passes text (c.advance n) := by
  subst hn
  have := c.passes_advance text.toList.length
  rwa [h, List.take_left, String.ofList_toList] at this

theorem startsWith_of_rest {rest : List Char} (h : c.rest = text.toList ++ rest) : c.startsWith text = true :=
  List.isPrefixOf_iff_prefix.2 ⟨rest, h.symm⟩

theorem passes_of_startsWith (h : c.startsWith text = true) {n : Nat} (hn : text.toList.length = n) :
    c.Passes text (c.advance n) := by
  obtain ⟨rest, hrest⟩ := List.isPrefixOf_iff_prefix.1 h
  exact passes_of_rest hrest.symm hn

/-- Up to a word that was found, and over it. -/
theorem passes_of_split {inside after : List Char} {n : Nat} (h : c.rest = inside ++ (text.toList ++ after))
    (hn : text.toList.length = n) : c.Passes (String.ofList inside ++ text) (c.advance (inside.length + n)) := by
  have hrest : c.rest = (String.ofList inside ++ text).toList ++ after := by
    rw [h, String.toList_append, String.toList_ofList, List.append_assoc]
  refine passes_of_rest hrest ?_
  rw [String.toList_append, String.toList_ofList, List.length_append, hn]

theorem reaches_stop (c : Cursor) : c.Reaches ⟨c.stop, []⟩ := ⟨c.rest, (List.append_nil _).symm, rfl⟩

theorem exists_on_of_boundary {p : Nat} (hp : Boundary source p) : ∃ c : Cursor, c.On source ∧ c.pos = p := by
  obtain ⟨before, after, hsource, rfl⟩ := hp
  exact ⟨⟨byteLength before, after⟩, ⟨before, hsource, (Nat.zero_add _).symm⟩, rfl⟩

namespace On

theorem self (source : String) : (ofText source).On source := .refl _

theorem reaches (hc : c.On source) (h : c.Reaches d) : d.On source := hc.trans h

theorem boundary (hc : c.On source) : Boundary source c.pos := by
  obtain ⟨taken, hrest, hpos⟩ := hc
  exact ⟨taken, c.rest, hrest, by simpa [ofText] using hpos⟩

/-- What is passed over is what stands between the positions. -/
theorem slice (hc : c.On source) (h : c.Passes text d) : Text.slice source c.pos d.pos = some text := by
  obtain ⟨taken, hrest, hpos⟩ := hc
  refine slice_eq_some_iff.2 ⟨taken, d.rest, ?_, by simpa [ofText] using hpos, h.pos⟩
  rw [← h.rest]
  exact hrest

theorem cuts (hc : c.On source) (h : c.Reaches d) : (Span.mk c.pos d.pos).Cuts source := by
  obtain ⟨text, h⟩ := h.passes
  exact ⟨text, hc.slice h⟩

theorem cuts_of_covers (hc : c.On source) {s : Span} (h : c.Covers s d) : s.Cuts source := by
  rw [h.span]
  exact hc.cuts h.reaches

theorem cuts_empty (hc : c.On source) : (Span.empty c.pos).Cuts source := hc.cuts (.refl c)

theorem slice_before (hc : c.On source) (h : c.Passes text d) {n : Nat} (hn : size text = n) :
    Text.slice source (d.pos - n) d.pos = some text := by
  have hslice := hc.slice h
  rwa [show c.pos = d.pos - n by rw [h.pos, hn, Nat.add_sub_cancel]] at hslice

theorem slice_after (hc : c.On source) (h : c.Passes text d) {n : Nat} (hn : size text = n) :
    Text.slice source c.pos (c.pos + n) = some text := by
  have hslice := hc.slice h
  rwa [h.pos, hn] at hslice

/-- A character that is not passed over does not stand in between. -/
theorem not_between (hc : c.On source) (h : c.Passes text d) {x : Char} (hx : x ∉ text.toList) {p q : Nat}
    (hp : c.pos ≤ p) (hlt : p < d.pos) : Text.slice source p q ≠ some (String.ofList [x]) := by
  intro hslice
  obtain ⟨taken, hrest, hpos⟩ := hc
  obtain ⟨before, after, hsource, rfl, -⟩ := slice_eq_some_iff.1 hslice
  have hpos : c.pos = byteLength taken := by simpa [ofText] using hpos
  obtain ⟨between, rfl, hbetween⟩ := exists_between (hrest.symm.trans hsource) (hpos ▸ hp)
  rw [h.rest, String.toList_ofList] at hbetween
  have hshort : byteLength between ≤ byteLength text.toList := by
    have := h.pos
    rw [size_eq_byteLength] at this
    rw [byteLength_append] at hlt
    omega
  obtain ⟨inside, htext, hinside⟩ := exists_between hbetween.symm hshort
  cases inside with
  | nil =>
    have := h.pos
    rw [size_eq_byteLength, htext, List.append_nil] at this
    rw [byteLength_append] at hlt
    omega
  | cons y ys =>
    have hy : x = y := by simpa using congrArg List.head? hinside
    exact hx (by simp [htext, hy])

end On

/-- Between any two characters of a text is one of its places. -/
theorem exists_at? {offset : Nat} (h : Boundary source offset) :
    ∃ c, at? source offset = some c ∧ c.On source ∧ c.pos = offset := by
  obtain ⟨before, after, hsource, rfl⟩ := h
  refine ⟨⟨byteLength before, after⟩, ?_, ⟨before, hsource, (Nat.zero_add _).symm⟩, rfl⟩
  rw [at?, hsource, dropBytes_append]
  rfl

end Cursor

end TypedTemplate
