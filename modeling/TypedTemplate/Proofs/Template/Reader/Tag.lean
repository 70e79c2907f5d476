/-
Opening tags as they are written. A value in quotes has its quotes at the ends of its span and its parts between
them, a text going on to the next mustache or to the end; names of attributes and of block parameters are spelled at
their spans. The tag ends with the first bracket that closes and is not part of an attribute, a modifier or a comment,
and what it holds is scattered before that.
-/
import TypedTemplate.Proofs.Template.Reader.Curly
import TypedTemplate.Template.Reader.Tag

namespace TypedTemplate.Template.Reader

open Lexer Text
open TypedTemplate.Span (InOrder Scattered Tile)

variable {source : String} {c d : Cursor} {p : Char → Bool} {x : Char} {t : TagContents} {spans : List Span}

/-! ## Runs of characters -/

theorem passes_runBetween (h : c.Reaches d) : c.Passes (runBetween c d).chars d := by
  obtain ⟨taken, hrest, hpos⟩ := h
  have htake : c.rest.take (c.rest.length - d.rest.length) = taken := by
    rw [hrest, List.length_append, Nat.add_sub_cancel, List.take_left]
  refine ⟨?_, ?_⟩
  · rw [runBetween, htake, String.toList_ofList, hrest]
  · rw [runBetween, htake, size_eq_byteLength, String.toList_ofList, hpos]

theorem spelled_runBetween (hc : c.On source) (h : c.Reaches d) : (runBetween c d).Spelled source :=
  hc.slice (passes_runBetween h)

/-- A run that holds nothing stops at its first character. -/
theorem head_of_run_isEmpty (h : (c.run p).isEmpty = true) : ∀ x ∈ c.rest.head?, p x = false := by
  intro x hx
  rw [String.isEmpty_iff, Cursor.run, ← String.toList_eq_nil_iff, String.toList_ofList] at h
  cases hrest : c.rest with
  | nil => simp [hrest] at hx
  | cons y ys =>
    rw [hrest, List.head?_cons, Option.mem_some] at hx
    subst hx
    simpa [hrest, List.takeWhile_cons] using h

theorem skipWhile_length_lt (h : ¬(c.run p).isEmpty = true) : (c.skipWhile p).rest.length < c.rest.length :=
  (c.passes_skipWhile p).length_lt fun hnil => h (String.isEmpty_iff.2 hnil)

/-- A span of one character that takes one byte. -/
theorem cuts_char (hc : c.On source) (hx : c.rest.head? = some x) (hsize : x.utf8Size = 1) :
    (Span.mk c.pos (c.pos + 1)).Cuts source := by
  have hcuts := hc.cuts (c.reaches_advance 1)
  rwa [(passes_head hx).pos, size_eq_byteLength, String.toList_ofList,
    byteLength_cons, hsize] at hcuts

/-! ## Values -/

/-- The parts of a value that were read up to its closing quote, with the place after it. -/
structure PartsAt (source : String) (quote : Char) (c : Cursor) (parts : List ConcatPart) (d : Cursor) : Prop where
  ends : ∃ q, c.Reaches q ∧ q.Passes (String.ofList [quote]) d ∧ Tile c.pos (parts.map (·.span)) q.pos
  known : ∀ p ∈ parts, p.Spelled source ∧ p.Placed
  parted : Parted parts
  plain : parts.any ConcatPart.isMustache = false → parts = [] ∨ ∃ t, parts = [.text t]

theorem readQuotedParts_yields {quote : Char} {start : Cursor} (hs : start.On source) :
    ∀ {fuel : Nat} {c : Cursor}, start.Reaches c → c.rest.length < fuel →
      YieldsAt source (PartsAt source quote c) (readQuotedParts quote start fuel c)
  | 0, _, _, hfuel => absurd hfuel (Nat.not_lt_zero _)
  | fuel + 1, c, hreach, hfuel => by
    unfold readQuotedParts
    extract_lets stop text
    have hc := hs.reaches hreach
    have hstop : c.Reaches stop := c.reaches_advance _
    -- there is a text if the place moved, and it fills the way
    have htile : Tile c.pos (text.map (·.span)) stop.pos := by
      simp only [text]
      split
      · rename_i hlt
        exact ⟨rfl, hlt, rfl⟩
      · rename_i hlt
        exact le_antisymm hstop.pos_le (not_lt.1 hlt)
    have hknown : ∀ p ∈ text, p.Spelled source ∧ p.Placed := by
      simp only [text]
      split
      · exact List.forall_mem_singleton.2 ⟨spelled_runBetween hc hstop, trivial⟩
      · exact List.forall_mem_nil _
    have hplain : text = [] ∨ ∃ t, text = [.text t] := by
      simp only [text]
      split
      · exact .inr ⟨_, rfl⟩
      · exact .inl rfl
    split
    · exact .throw (hs.cuts (hreach.trans hstop))
    · rename_i x xs hrest
      split
      · rename_i hquote
        subst hquote
        refine .pure ⟨⟨stop, hstop, passes_head (by rw [hrest]; rfl), htile⟩, hknown, ?_, fun _ => hplain⟩
        rcases hplain with h | ⟨t, h⟩ <;> rw [h] <;> trivial
      · have hon := hc.reaches hstop
        split
        · exact .throw (curlySpan_cuts hon)
        · refine (readMustache_yields hon).bind fun m after hm => ?_
          have hle := hstop.length_le
          have hlt := hm.length_lt
          have hafter := hstop.trans hm.reaches
          refine (readQuotedParts_yields hs (hreach.trans hafter) (by omega)).bind fun parts d hparts => ?_
          obtain ⟨q, hq, hd, htiled⟩ := hparts.ends
          refine .pure ⟨⟨q, hafter.trans hq, hd, ?_⟩, ?_, ?_, ?_⟩
          · rw [List.map_append]
            exact htile.append (hm.tile htiled)
          · exact List.forall_mem_append.2
              ⟨hknown, List.forall_mem_cons.2 ⟨⟨hm.spelled, hm.placed⟩, hparts.known⟩⟩
          · rcases hplain with h | ⟨t, h⟩ <;> rw [h] <;> exact hparts.parted
          · intro hany
            simp [ConcatPart.isMustache] at hany

/-- A value without mustaches has no part at all, or one that fills the quotes. -/
theorem PartsAt.between {quote : Char} {q : Cursor} {parts : List ConcatPart} (h : PartsAt source quote c parts d)
    (hc : c.On source) (hclose : q.Passes (String.ofList [quote]) d)
    (hany : parts.any ConcatPart.isMustache = false) :
    (parts = [] ∧ slice source c.pos q.pos = some "") ∨
      ∃ t, parts = [.text t] ∧ slice source c.pos q.pos = some t.chars := by
  obtain ⟨q', hq', hclose', htile⟩ := h.ends
  have hpos : q'.pos = q.pos := Nat.add_right_cancel (hclose'.pos.symm.trans hclose.pos)
  rw [hpos] at htile
  rcases h.plain hany with rfl | ⟨t, rfl⟩
  · have hnil : c.pos = q.pos := htile
    exact .inl ⟨rfl, hnil ▸ hc.slice (.nil _)⟩
  · obtain ⟨htext, -, hend⟩ := htile
    refine .inr ⟨t, rfl, ?_⟩
    rw [← htext, ← show t.span.stop = q.pos from hend]
    exact (h.known _ List.mem_cons_self).1

theorem size_quote {quote : Char} (h : quote ∈ quotes) : size (String.ofList [quote]) = 1 := by
  simp only [quotes, List.mem_cons, List.not_mem_nil, or_false] at h
  rcases h with rfl | rfl <;> rfl

/-- A value that was read from a place on, with the place after it. -/
structure ValueAt (source : String) (c : Cursor) (v : AttrValue) (d : Cursor) : Prop where
  reaches : c.Reaches d
  span : v.span = ⟨c.pos, d.pos⟩
  spelled : v.Spelled source
  placed : v.Placed
  neat : v.Neat

theorem readQuotedValue_yields {quote : Char} (hc : c.On source) (hquote : quote ∈ quotes)
    (hhead : c.rest.head? = some quote) : YieldsAt source (ValueAt source c) (readQuotedValue quote c) := by
  have hopen := passes_head hhead
  have hsize := size_quote hquote
  have hle := hopen.reaches.length_le
  unfold readQuotedValue
  refine (readQuotedParts_yields hc hopen.reaches (Nat.lt_succ_of_le hle)).bind fun parts d hparts => ?_
  obtain ⟨q, hq, hclose, htile⟩ := hparts.ends
  have hreach := hopen.reaches.trans (hq.trans hclose.reaches)
  have hon := hc.reaches (hopen.reaches.trans hq)
  have hstart : c.pos + 1 = (c.advance 1).pos := by rw [hopen.pos, hsize]
  have hstop : d.pos - 1 = q.pos := by rw [hclose.pos, hsize, Nat.add_sub_cancel]
  have hquoted : IsQuoted source ⟨c.pos, d.pos⟩ := by
    refine ⟨quote, hquote, ?_, hc.slice_after hopen hsize, hon.slice_before hclose hsize⟩
    have := hq.pos_le
    have := hclose.pos
    dsimp only
    omega
  dsimp only
  split
  · refine .pure ⟨hreach, rfl, ⟨hquoted, ?_, fun p hp => (hparts.known p hp).1⟩,
      ⟨htile.inOrder.mono hopen.reaches.pos_le hclose.reaches.pos_le, fun p hp => (hparts.known p hp).2⟩,
      hparts.parted⟩
    dsimp only
    rwa [hstart, hstop]
  · rename_i hany
    refine .pure ⟨hreach, rfl, .inr ⟨hquoted, ?_⟩, trivial, trivial⟩
    dsimp only
    rw [hstart, hstop]
    rcases hparts.between (hc.reaches hopen.reaches) hclose (Bool.eq_false_iff.2 hany) with ⟨rfl, h⟩ | ⟨t, rfl, h⟩
    · exact h
    · exact h

theorem readBareValue_yields (hc : c.On source) (hhead : ∀ quote ∈ quotes, c.rest.head? ≠ some quote)
    (name : String) : YieldsAt source (ValueAt source c) (readBareValue name c) := by
  unfold readBareValue
  extract_lets run rest chars after
  split
  · exact .throw hc.cuts_empty
  · refine .pure ⟨c.reaches_advance _, rfl, .inl ⟨spelled_runBetween hc (c.reaches_advance _), ?_⟩, trivial, trivial⟩
    intro quote hquote hstart
    refine hhead quote hquote ?_
    rw [(passes_runBetween (c.reaches_advance _)).rest, List.head?_append, hstart]
    rfl

theorem readValue_yields (hc : c.On source) (name : String) :
    YieldsAt source (ValueAt source c) (readValue name c) := by
  unfold readValue
  split
  · rename_i hrest
    exact readQuotedValue_yields hc (by decide) (by rw [hrest]; rfl)
  · rename_i hrest
    exact readQuotedValue_yields hc (by decide) (by rw [hrest]; rfl)
  · split
    · exact .throw (curlySpan_cuts hc)
    · exact (readMustache_yields hc).bind fun m d hm => .pure ⟨hm.reaches, hm.span, hm.spelled, hm.placed, trivial⟩
  · rename_i hdouble hsingle _
    refine readBareValue_yields hc (fun quote hquote hhead => ?_) name
    obtain ⟨xs, hrest⟩ := List.head?_eq_some_iff.1 hhead
    simp only [quotes, List.mem_cons, List.not_mem_nil, or_false] at hquote
    rcases hquote with rfl | rfl
    · exact hdouble xs hrest
    · exact hsingle xs hrest

/-! ## Attributes -/

/-- An attribute that was read from a place on, with the place after it. -/
structure AttributeAt (source : String) (c : Cursor) (a : Attribute) (d : Cursor) : Prop extends
    c.Covers a.span d where
  spelled : a.Spelled source
  placed : a.Placed
  neat : a.value.Neat

theorem run_fits (p : Char → Bool) (c : Cursor) :
    Name.Fits ⟨c.run p, ⟨c.pos, (c.skipWhile p).pos⟩⟩ :=
  c.pos_skipWhile p

/-- The characters that end a name and are not blank take one byte. -/
theorem utf8Size_of_not_attributeChar (hblank : isBlank x = false) (hx : isAttributeChar x = false) :
    x.utf8Size = 1 := by
  simp only [isAttributeChar, hblank, Bool.not_false, Bool.true_and, Bool.and_eq_false_iff, bne_eq_false_iff_eq] at hx
  rcases hx with ((rfl | rfl) | rfl) | rfl <;> rfl

theorem readAttribute_yields (hc : c.On source) (hx : c.rest.head? = some x) (hblank : isBlank x = false) :
    YieldsAt source (AttributeAt source c) (readAttribute c) := by
  have hpasses := c.passes_skipWhile isAttributeChar
  have hafter := hc.reaches hpasses.reaches
  unfold readAttribute
  dsimp only
  split
  · rename_i hempty
    have hstop := head_of_run_isEmpty hempty x hx
    exact .throw (cuts_char hc hx (utf8Size_of_not_attributeChar hblank hstop))
  · rename_i hname
    have hlt := skipWhile_length_lt hname
    split
    · have hvalue := (Cursor.reaches_skipWhile isBlank (c.skipWhile isAttributeChar)).trans
        ((Cursor.reaches_advance _ 1).trans (Cursor.reaches_skipWhile isBlank _))
      refine (readValue_yields (hafter.reaches hvalue) _).bind fun v d hv => ?_
      have hreach := hvalue.trans hv.reaches
      have hall := hpasses.reaches.trans hreach
      refine .pure ⟨⟨hall, hreach.length_le.trans_lt hlt, rfl⟩, ⟨hc.slice hpasses, hv.spelled, hc.cuts hall⟩,
        ⟨?_, run_fits _ c, hv.placed⟩, hv.neat⟩
      dsimp only
      rw [hv.span]
      exact ⟨le_rfl, hpasses.reaches.pos_le, hvalue.pos_le, hv.reaches.pos_le, le_rfl⟩
    · refine .pure ⟨⟨hpasses.reaches, hlt, rfl⟩, ⟨hc.slice hpasses, .inl ⟨hafter.slice (.nil _), ?_⟩,
        hc.cuts hpasses.reaches⟩, ⟨⟨le_rfl, hpasses.reaches.pos_le, le_rfl, le_rfl, le_rfl⟩, run_fits _ c, trivial⟩,
        trivial⟩
      intro quote _ hhead
      cases hhead

/-! ## Block parameters -/

/-- From `c` to `d` without passing over a closing bracket. -/
def Clear (c d : Cursor) : Prop := ∃ text, c.Passes text d ∧ '>' ∉ text.toList

theorem Clear.reaches (h : Clear c d) : c.Reaches d := by
  obtain ⟨text, h, -⟩ := h
  exact h.reaches

theorem Clear.trans {e : Cursor} (h : Clear c d) (h' : Clear d e) : Clear c e := by
  obtain ⟨text, h, hclear⟩ := h
  obtain ⟨more, h', hclear'⟩ := h'
  refine ⟨text ++ more, h.trans h', ?_⟩
  rw [String.toList_append, List.mem_append, not_or]
  exact ⟨hclear, hclear'⟩

theorem clear_skipWhile (hp : p '>' = false) (c : Cursor) : Clear c (c.skipWhile p) := by
  refine ⟨_, c.passes_skipWhile p, fun hmem => ?_⟩
  rw [Cursor.run, String.toList_ofList] at hmem
  rw [List.all_eq_true.1 List.all_takeWhile _ hmem] at hp
  cases hp

theorem clear_head (hx : c.rest.head? = some x) (hne : x ≠ '>') : Clear c (c.advance 1) := by
  refine ⟨_, passes_head hx, ?_⟩
  rw [String.toList_ofList, List.mem_singleton]
  exact hne.symm

/-- Characters are skipped up to one that is not among them. -/
theorem head_skipWhile (h : (c.skipWhile p).rest.head? = some x) : p x = false := by
  have hnot := List.head?_dropWhile_not p c.rest
  rw [show (c.rest.dropWhile p).head? = some x from h] at hnot
  simpa using hnot

theorem readTagParamNames_yields {start : Cursor} (hs : start.On source) :
    ∀ {fuel : Nat} {c : Cursor}, start.Reaches c → c.rest.length < fuel →
      YieldsAt source (fun names d => Clear c d ∧ NamesAt source c names d) (readTagParamNames start.pos fuel c)
  | 0, _, _, hfuel => absurd hfuel (Nat.not_lt_zero _)
  | fuel + 1, c, hreach, hfuel => by
    unfold readTagParamNames
    extract_lets b after name following
    have hblank : Clear c b := clear_skipWhile (by decide) c
    have hb := hreach.trans hblank.reaches
    have hon := hs.reaches hb
    split
    · exact .throw (hs.cuts hb)
    · rename_i hrest
      have hbar := hblank.trans (clear_head (by rw [hrest]; rfl) (by decide))
      exact .pure ⟨hbar, .nil hbar.reaches⟩
    · rename_i hnil hbar
      split
      · rename_i hempty
        obtain ⟨x, xs, hrest⟩ := List.exists_cons_of_ne_nil hnil
        have hhead : b.rest.head? = some x := by rw [hrest]; rfl
        have hstop := head_of_run_isEmpty hempty x hhead
        -- a name that is missing is missed before the bracket
        have hx : x = '>' := by
          have hne : x ≠ '|' := by
            rintro rfl
            exact hbar xs hrest
          simpa [isParamChar, head_skipWhile hhead, hne] using hstop
        exact .throw (cuts_char hon hhead (by rw [hx]; rfl))
      · rename_i hname
        have hlt : after.rest.length < b.rest.length := skipWhile_length_lt hname
        have hle := hblank.reaches.length_le
        have hafter : Clear b after := clear_skipWhile (by decide) b
        refine (readTagParamNames_yields hs (hb.trans hafter.reaches) (by omega)).bind fun names d h => ?_
        exact .pure ⟨hblank.trans (hafter.trans h.1),
          h.2.cons hblank.reaches (b.passes_skipWhile isParamChar) rfl hon⟩

theorem startsParams_word (h : startsParams c.rest = true) :
    c.startsWith "as" = true ∧ ((c.advance 2).skipWhile isBlank).rest.head? = some '|' := by
  unfold startsParams at h
  split at h
  · rename_i rest hstrip
    have hrest := stripStart?_eq_some hstrip
    have hword := Cursor.passes_of_rest hrest rfl
    have hafter : rest = (c.advance 2).rest := List.append_cancel_left (hrest.symm.trans hword.rest)
    rw [hafter] at h
    exact ⟨Cursor.startsWith_of_rest hrest, eq_of_beq h⟩
  · cases h

theorem readTagParams_yields (hc : c.On source) (hstarts : startsParams c.rest = true) :
    YieldsAt source (fun names d => Clear c d ∧ d.rest.length < c.rest.length ∧ NamesAt source c names d)
      (readTagParams c) := by
  obtain ⟨hstarts, hbar⟩ := startsParams_word hstarts
  have hword := Cursor.passes_of_startsWith hstarts (n := 2) rfl
  have hopen : Clear (c.advance 2) (((c.advance 2).skipWhile isBlank).advance 1) :=
    (clear_skipWhile (by decide) _).trans (clear_head hbar (by decide))
  have hreach := hword.reaches.trans hopen.reaches
  unfold readTagParams
  refine (readTagParamNames_yields hc hreach (Nat.lt_succ_of_le hreach.length_le)).bind fun names d h => ?_
  have hrest := hopen.trans h.1
  dsimp only
  split
  · exact .throw (hc.cuts (hword.reaches.trans hrest.reaches))
  · have hlt := hrest.reaches.length_le.trans_lt (hword.length_lt (by decide))
    exact .pure ⟨Clear.trans ⟨_, hword, by decide⟩ hrest, hlt, h.2.mono hreach⟩

/-! ## The whole tag -/

/-- The brackets of a stretch that close are in one of the spans. -/
def BracketsIn (source : String) (spans : List Span) (lo hi : Nat) : Prop :=
  ∀ p, lo ≤ p → p < hi → slice source p (p + 1) = some ">" → ∃ s ∈ spans, s.contains p = true

theorem Clear.bracketsIn (h : Clear c d) (hc : c.On source) (spans : List Span) :
    BracketsIn source spans c.pos d.pos := by
  obtain ⟨text, h, hclear⟩ := h
  intro p hlo hhi hslice
  exact absurd hslice (hc.not_between h hclear hlo hhi)

/-- The spans of what a tag holds, by kinds. -/
def TagContents.inside (t : TagContents) : List Span :=
  t.attributes.map (·.span) ++ t.modifiers.map (·.span) ++ t.comments.map (·.span)

theorem TagContents.inside_subset {u : TagContents} (hattributes : t.attributes ⊆ u.attributes)
    (hmodifiers : t.modifiers ⊆ u.modifiers) (hcomments : t.comments ⊆ u.comments) : t.inside ⊆ u.inside := by
  unfold TagContents.inside
  intro s hs
  simp only [List.mem_append, List.mem_map] at hs ⊢
  rcases hs with (⟨a, ha, rfl⟩ | ⟨m, hm, rfl⟩) | ⟨m, hm, rfl⟩
  · exact .inl (.inl ⟨a, hattributes ha, rfl⟩)
  · exact .inl (.inr ⟨m, hmodifiers hm, rfl⟩)
  · exact .inr ⟨m, hcomments hm, rfl⟩

/-- Where a tag ends: after the first closing bracket that none of the spans holds. -/
def TagEnds (source : String) (spans : List Span) (c d : Cursor) : Prop :=
  ∃ g, c.Reaches g ∧ g.Passes ">" d ∧ BracketsIn source spans c.pos g.pos

theorem TagEnds.step {b : Cursor} {more : List Span} (h : TagEnds source more b d) (hb : c.Reaches b)
    (hpart : BracketsIn source spans c.pos b.pos) (hmore : more ⊆ spans) : TagEnds source spans c d := by
  obtain ⟨g, hg, hd, hin⟩ := h
  refine ⟨g, hb.trans hg, hd, fun p hlo hhi hslice => ?_⟩
  by_cases hlt : p < b.pos
  · exact hpart p hlo hlt hslice
  · obtain ⟨s, hs, hcontains⟩ := hin p (not_lt.1 hlt) hhi hslice
    exact ⟨s, hmore hs, hcontains⟩

theorem TagEnds.reaches (h : TagEnds source spans c d) : c.Reaches d := by
  obtain ⟨g, hg, hd, -⟩ := h
  exact hg.trans hd.reaches

theorem TagEnds.pos_lt (h : TagEnds source spans c d) : c.pos < d.pos := by
  obtain ⟨g, hg, hd, -⟩ := h
  exact hg.pos_le.trans_lt (hd.reaches.pos_lt (hd.length_lt (by decide)))

theorem TagEnds.opensTo {e : Element} (h : TagEnds source e.inside c d) (hc : c.On source)
    (htag : e.tag.span.stop = c.pos) : e.OpensTo source d.pos := by
  obtain ⟨g, hg, hd, hfirst⟩ := h
  have hpos : d.pos = g.pos + 1 := hd.pos
  have hle := hg.pos_le
  refine ⟨by omega, (hc.reaches hg).slice_before hd rfl, fun p hlo hhi hbracket => ?_⟩
  exact hfirst p (by omega) (by omega) hbracket

/-- The spans of what an opening tag holds and keeps, by kinds. -/
def TagContents.pieces (t : TagContents) : List Span :=
  t.attributes.map (·.span) ++ t.modifiers.map (·.span) ++ (t.params.getD []).map (·.span)

/-- What stands in a tag that was read from a place on, with the place after the tag. -/
structure ContentsAt (source : String) (c : Cursor) (t : TagContents) (d : Cursor) : Prop where
  attributes : ∀ a ∈ t.attributes, a.Spelled source ∧ a.Placed ∧ a.value.Neat
  modifiers : ∀ m ∈ t.modifiers, m.Spelled source ∧ m.Placed
  comments : ∀ m ∈ t.comments, m.Spelled source commentOpenings commentClosings
  params : ∀ n ∈ t.params.getD [], n.Spelled source
  ends : TagEnds source t.inside c d
  pieces : Scattered c.pos (d.pos - 1) t.pieces
  inOrder : InOrder c.pos (t.comments.map (·.span)) d.pos

theorem ContentsAt.nil {selfClosing : Bool} (h : TagEnds source [] c d) :
    ContentsAt source c { selfClosing := selfClosing } d :=
  ⟨List.forall_mem_nil _, List.forall_mem_nil _, List.forall_mem_nil _, List.forall_mem_nil _, h, .nil,
    h.reaches.pos_le⟩

/-- A span that starts at a place holds what stands up to its end. -/
theorem bracketsIn_span {s : Span} {lo hi : Nat} (hs : s ∈ spans) (hspan : s = ⟨lo, hi⟩) :
    BracketsIn source spans lo hi := by
  intro p hlo hhi _
  refine ⟨s, hs, ?_⟩
  simp [hspan, Span.contains, hlo, hhi]

section

variable {b : Cursor} (h : ContentsAt source b t d)
include h

theorem ContentsAt.clear (hb : Clear c b) (hc : c.On source) : ContentsAt source c t d :=
  ⟨h.attributes, h.modifiers, h.comments, h.params, h.ends.step hb.reaches (hb.bracketsIn hc _) (.refl _),
    h.pieces.mono hb.reaches.pos_le le_rfl, h.inOrder.mono hb.reaches.pos_le le_rfl⟩

theorem ContentsAt.le : b.pos ≤ d.pos - 1 :=
  Nat.le_sub_one_of_lt h.ends.pos_lt

theorem ContentsAt.comment {m : Comment} (hm : CommentAt source commentOpenings commentClosings c m b) :
    ContentsAt source c { t with comments := m :: t.comments } d := by
  have hspan := hm.span_in
  refine ⟨h.attributes, h.modifiers, List.forall_mem_cons.2 ⟨hm.spelled, h.comments⟩, h.params, ?_,
    h.pieces.mono hm.reaches.pos_le le_rfl, hspan.lower, hspan.ordered, h.inOrder.mono hspan.upper le_rfl⟩
  exact h.ends.step hm.reaches (bracketsIn_span (List.mem_append_right _ List.mem_cons_self) hm.span)
    (TagContents.inside_subset (.refl _) (.refl _) (List.subset_cons_self _ _))

theorem ContentsAt.modifier {m : Mustache} (hm : MustacheAt source c m b) :
    ContentsAt source c { t with modifiers := m.call :: t.modifiers } d := by
  refine ⟨h.attributes, List.forall_mem_cons.2 ⟨⟨hm.spelled, hm.placed⟩, h.modifiers⟩, h.comments, h.params, ?_,
    (h.pieces.cons hm.span_in h.le).perm ?_, h.inOrder.mono hm.reaches.pos_le le_rfl⟩
  · refine h.ends.step hm.reaches (bracketsIn_span (s := m.call.span) ?_ hm.span)
      (TagContents.inside_subset (.refl _) (List.subset_cons_self _ _) (.refl _))
    exact List.mem_append_left _ (List.mem_append_right _ List.mem_cons_self)
  · simp [TagContents.pieces, List.append_assoc]

theorem ContentsAt.attribute {a : Attribute} (ha : AttributeAt source c a b) :
    ContentsAt source c { t with attributes := a :: t.attributes } d := by
  refine ⟨List.forall_mem_cons.2 ⟨⟨ha.spelled, ha.placed, ha.neat⟩, h.attributes⟩, h.modifiers, h.comments, h.params,
    ?_, h.pieces.cons ha.span_in h.le, h.inOrder.mono ha.reaches.pos_le le_rfl⟩
  refine h.ends.step ha.reaches (bracketsIn_span (s := a.span) ?_ ha.span)
    (TagContents.inside_subset (List.subset_cons_self _ _) (.refl _) (.refl _))
  exact List.mem_append_left _ (List.mem_append_left _ List.mem_cons_self)

/-- Block parameters that are given again hide these. -/
theorem ContentsAt.names {names : List Name} (hnames : NamesAt source c names b) (hb : Clear c b)
    (hc : c.On source) : ContentsAt source c { t with params := t.params <|> some names } d := by
  have hmore := h.clear hb hc
  cases hlater : t.params with
  | some others =>
    have hsame : { t with params := some others } = t := by rw [← hlater]
    exact hsame ▸ hmore
  | none =>
    refine ⟨h.attributes, h.modifiers, h.comments, hnames.spelled, hmore.ends, ?_, hmore.inOrder⟩
    have hall := hnames.inOrder.scattered.append h.pieces hb.reaches.pos_le h.le
    refine hall.perm ?_
    simp only [TagContents.pieces, hlater, Option.getD_none, List.map_nil, List.append_nil]
    exact List.perm_append_comm

end

theorem readTagContents_yields {unclosed : ParseError} (hunclosed : unclosed.span.Cuts source) :
    ∀ {fuel : Nat} {c : Cursor}, c.On source → c.rest.length < fuel →
      YieldsAt source (ContentsAt source c) (readTagContents unclosed fuel c)
  | 0, _, _, hfuel => absurd hfuel (Nat.not_lt_zero _)
  | fuel + 1, c, hc, hfuel => by
    unfold readTagContents
    extract_lets b
    have hblank : Clear c b := clear_skipWhile (by decide) c
    have hb := hc.reaches hblank.reaches
    have hle := hblank.reaches.length_le
    refine YieldsAt.imp ?_ fun t d h => ContentsAt.clear h hblank hc
    split
    · exact .throw hunclosed
    · rename_i hrest
      -- the slash is passed over before the bracket
      have hslash := clear_head (c := b) (by rw [hrest]; rfl) (show '/' ≠ '>' by decide)
      have hbracket := passes_head (c := b.advance 1) (x := '>') (by simp [Cursor.advance, hrest])
      have htwo : (b.advance 1).advance 1 = b.advance 2 := by
        simp [Cursor.advance, hrest, byteLength, Nat.add_assoc]
      rw [htwo] at hbracket
      exact .pure (.nil ⟨b.advance 1, hslash.reaches, hbracket, hslash.bracketsIn hb _⟩)
    · rename_i hrest
      exact .pure (.nil ⟨b, .refl b, passes_head (by rw [hrest]; rfl), fun _ hlo hhi => absurd hhi (not_lt.2 hlo)⟩)
    · rename_i hrest
      have hopen : b.startsWith "\x7b\x7b" = true := Cursor.startsWith_of_rest hrest
      split
      · rename_i hcurly
        refine (readMustacheComment_yields hb hopen hcurly).bind fun m after hm => ?_
        have hlt := hm.length_lt
        refine (readTagContents_yields hunclosed (hb.reaches hm.reaches) (by omega)).bind fun more d h => ?_
        exact .pure (h.comment hm)
      · refine (readMustache_yields hb).bind fun m after hm => ?_
        have hlt := hm.length_lt
        refine (readTagContents_yields hunclosed (hb.reaches hm.reaches) (by omega)).bind fun more d h => ?_
        exact .pure (h.modifier hm)
      · exact .throw (curlySpan_cuts hb)
    · rename_i hnil _ _ _
      split
      · rename_i hparams
        refine (readTagParams_yields hb hparams).bind fun names after hnames => ?_
        obtain ⟨hclear, hlt, hnames⟩ := hnames
        refine (readTagContents_yields hunclosed (hb.reaches hclear.reaches) (by omega)).bind fun more d h => ?_
        exact .pure (h.names hnames hclear hb)
      · obtain ⟨x, xs, hrest⟩ := List.exists_cons_of_ne_nil hnil
        have hhead : b.rest.head? = some x := by rw [hrest]; rfl
        refine (readAttribute_yields hb hhead (head_skipWhile hhead)).bind fun a after ha => ?_
        have hlt := ha.length_lt
        refine (readTagContents_yields hunclosed (hb.reaches ha.reaches) (by omega)).bind fun more d h => ?_
        exact .pure (h.attribute ha)

end TypedTemplate.Template.Reader
