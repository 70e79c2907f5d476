/-
Comments and mustaches as they are written. A comment stands with its delimiters from the place where it is read to
the place after it, and so does a mustache, whose parts lie strictly between its braces.
-/
import TypedTemplate.Proofs.Template.Neat
import TypedTemplate.Proofs.Template.Reader.Expr
import TypedTemplate.Template.Reader.Curly

namespace TypedTemplate.Template.Reader

open Lexer Text

variable {source : String} {c d : Cursor} {inside rest : List Char} {n : Nat}

theorem curlySpan_cuts (hc : c.On source) : (curlySpan c).Cuts source := by
  unfold curlySpan
  split
  · rename_i inside after hsplit
    have hpasses : c.Passes (String.ofList inside ++ "\x7d\x7d") (c.advance (inside.length + 2)) :=
      Cursor.passes_of_split (splitAtFirst_eq_some hsplit) rfl
    have hcuts := hc.cuts hpasses.reaches
    rwa [hpasses.pos, size_append, size_eq_byteLength (String.ofList inside), String.toList_ofList,
      ← Nat.add_assoc] at hcuts
  · exact hc.cuts c.reaches_stop

/-- A comment that was read from a place on, with the place after it. -/
structure CommentAt (source : String) (openings closings : List String) (c : Cursor) (m : Comment)
    (d : Cursor) : Prop extends c.Covers m.span d where
  spelled : m.Spelled source openings closings

theorem commentOf_at {openings closings : List String} {body : Cursor} {opening word : String} {after : List Char}
    (hc : c.On source) (hopening : opening ∈ openings) (hne : opening ≠ "") (hword : word ∈ closings)
    (hbody : c.Passes opening body) (hrest : body.rest = inside ++ (word.toList ++ after))
    (hn : word.toList.length = n) :
    CommentAt source openings closings c (commentOf c body inside n).1 (commentOf c body inside n).2 := by
  have hclose := Cursor.passes_of_split hrest hn
  have hall := hbody.trans hclose
  have hlt := hclose.reaches.length_le.trans_lt (hbody.length_lt hne)
  refine ⟨⟨hall.reaches, hlt, rfl⟩, opening, hopening, word, hword, ?_⟩
  rw [String.append_assoc]
  exact hc.slice hall

theorem readComment_yields (hc : c.On source) (hopen : c.startsWith "<!--" = true) :
    YieldsAt source (CommentAt source ["<!--"] ["-->"] c) (readComment c) := by
  unfold readComment
  dsimp only
  split
  · rename_i inside after hsplit
    exact .pure (commentOf_at hc List.mem_cons_self (by decide) List.mem_cons_self
      (Cursor.passes_of_startsWith hopen rfl) (splitAtFirst_eq_some hsplit) rfl)
  · exact .throw (hc.cuts c.reaches_stop)

/-- The body of a comment ends at one of the closings. -/
def EndsComment (rest inside : List Char) (n : Nat) : Prop :=
  ∃ word ∈ commentClosings, ∃ after, rest = inside ++ (word.toList ++ after) ∧ word.toList.length = n

theorem endsComment_of_split {word : List Char} (hword : String.ofList word ∈ commentClosings)
    (h : (splitAtFirst word rest).map (·.1) = some inside) : EndsComment rest inside word.length := by
  obtain ⟨⟨inside, after⟩, hsplit, rfl⟩ := Option.map_eq_some_iff.1 h
  refine ⟨_, hword, after, ?_, ?_⟩
  · rw [String.toList_ofList]
    exact splitAtFirst_eq_some hsplit
  · rw [String.toList_ofList]

theorem longCommentBody?_ends (h : longCommentBody? rest = some (inside, n)) : EndsComment rest inside n := by
  unfold longCommentBody? at h
  dsimp only at h
  split at h
  · rename_i hplain htrimming
    split at h
    · cases h
      exact endsComment_of_split (by decide) htrimming
    · cases h
      exact endsComment_of_split (by decide) hplain
  · rename_i hplain _
    cases h
    exact endsComment_of_split (by decide) hplain
  · rename_i htrimming
    cases h
    exact endsComment_of_split (by decide) htrimming
  · cases h

theorem shortCommentBody?_ends (h : shortCommentBody? rest = some (inside, n)) : EndsComment rest inside n := by
  obtain ⟨⟨raw, after⟩, hsplit, h⟩ := Option.map_eq_some_iff.1 h
  dsimp only at h
  have hrest := splitAtFirst_eq_some hsplit
  split at h
  · rename_i front hstrip
    cases h
    rw [stripEnd?_eq_some hstrip, List.append_assoc] at hrest
    exact ⟨"~\x7d\x7d", by decide, after, hrest, rfl⟩
  · cases h
    exact ⟨"\x7d\x7d", by decide, after, hrest, rfl⟩

theorem startsWith_of_head? {x : Char} (h : c.rest.head? = some x) : c.startsWith (String.ofList [x]) = true := by
  obtain ⟨xs, hrest⟩ := List.head?_eq_some_iff.1 h
  have htext : c.rest = (String.ofList [x]).toList ++ xs := by rw [String.toList_ofList, hrest]; rfl
  exact Cursor.startsWith_of_rest htext

theorem passes_head {x : Char} (h : c.rest.head? = some x) : c.Passes (String.ofList [x]) (c.advance 1) :=
  Cursor.passes_of_startsWith (startsWith_of_head? h) (by rw [String.toList_ofList]; rfl)

/-- The place after the sign of braces that make a comment. -/
theorem passes_commentSign (hcurly : curlyAt c = .comment) :
    ∃ t ∈ ["", "~"], ∃ b, (c.advance 2).Passes t b ∧ b.startsWith "!" = true ∧
      b = if (c.advance 2).startsWith "~" then (c.advance 2).advance 1 else c.advance 2 := by
  have hhead : ((stripStart? ['~'] (c.advance 2).rest).getD (c.advance 2).rest).head? = some '!' := by
    unfold curlyAt classify at hcurly
    split at hcurly
    · cases hcurly
    · dsimp only at hcurly
      split at hcurly
      · assumption
      · split at hcurly
        · cases hcurly
        · cases hcurly
        · split at hcurly <;> cases hcurly
        · cases hcurly
  unfold stripStart? at hhead
  split at hhead
  · rename_i hprefix
    have htilde : (c.advance 2).startsWith "~" = true := hprefix
    exact ⟨"~", by decide, _, Cursor.passes_of_startsWith htilde rfl, startsWith_of_head? hhead,
      (if_pos htilde).symm⟩
  · rename_i hprefix
    have htilde : ¬(c.advance 2).startsWith "~" = true := hprefix
    exact ⟨"", by decide, _, .nil _, startsWith_of_head? hhead, (if_neg htilde).symm⟩

theorem readMustacheComment_yields (hc : c.On source) (hopen : c.startsWith "\x7b\x7b" = true)
    (hcurly : curlyAt c = .comment) :
    YieldsAt source (CommentAt source commentOpenings commentClosings c) (readMustacheComment c) := by
  obtain ⟨tilde, htilde, b, hb, hsign, hif⟩ := passes_commentSign hcurly
  have hfront := ((Cursor.passes_of_startsWith hopen rfl).trans hb).trans (Cursor.passes_of_startsWith hsign rfl)
  have hopening : ∀ t ∈ ["", "~"], "\x7b\x7b" ++ t ++ "!" ++ "--" ∈ commentOpenings ∧
      "\x7b\x7b" ++ t ++ "!" ∈ commentOpenings := by decide
  unfold readMustacheComment
  dsimp only
  rw [← hif]
  split
  · rename_i inside n hinside
    have hends {body : Cursor} {opening : String} (hopening : opening ∈ commentOpenings)
        (hbody : c.Passes opening body) (h : EndsComment body.rest inside n) :
        YieldsAt source (CommentAt source commentOpenings commentClosings c)
          (.ok (commentOf c body inside n)) := by
      obtain ⟨word, hword, after, hrest, hn⟩ := h
      refine .pure (commentOf_at hc hopening ?_ hword hbody hrest hn)
      rintro rfl
      revert hopening
      decide
    by_cases hlong : (b.advance 1).startsWith "--" = true
    · simp only [if_pos hlong] at hinside ⊢
      exact hends (hopening tilde htilde).1 (hfront.trans (Cursor.passes_of_startsWith hlong rfl))
        (longCommentBody?_ends hinside)
    · simp only [if_neg hlong] at hinside ⊢
      exact hends (hopening tilde htilde).2 hfront (shortCommentBody?_ends hinside)
  · exact .throw (hc.cuts c.reaches_stop)

/-! ## Mustaches -/

/-- The parts of an invocation as the parts of a call with braces around it. -/
theorem Invocation.Placed.inset {i : Invocation} {lo hi : Nat} (h : i.Placed lo hi) {span : Span}
    (hlo : span.start < lo) (hhi : hi < span.stop) : (i.call span).Inset := by
  obtain ⟨mid, hparts, hnames⟩ := (h.parts_call span).split
  have := hnames.le
  exact hparts.mono hlo (show mid ≤ span.stop - 1 by omega)

theorem pos_lt_closing {trusting : Bool} (h : c.Passes (closing trusting) d) : c.pos < d.pos :=
  h.reaches.pos_lt (h.length_lt (by cases trusting <;> decide))

/-- Braces that were read from a place on, with the place after them. -/
structure MustacheAt (source : String) (c : Cursor) (m : Mustache) (d : Cursor) : Prop extends
    c.Covers m.call.span d where
  spelled : m.call.Spelled source
  placed : m.call.Placed
  inset : m.call.Inset

theorem readMustache_yields (hc : c.On source) : YieldsAt source (MustacheAt source c) (readMustache c) := by
  unfold readMustache
  dsimp only
  have hn : 0 < if c.startsWith "\x7b\x7b\x7b" then 3 else 2 := by split <;> decide
  generalize (if c.startsWith "\x7b\x7b\x7b" then 3 else 2) = n at hn ⊢
  have hskip := reaches_skip .tilde (c.advance n)
  have hinside := (c.reaches_advance n).trans hskip
  refine (readInvocationAt_yields (hc.reaches hinside)).bind fun i d hi => ?_
  refine .after (hi.spelled.plain _) fun _ _ => ?_
  have hd := hinside.trans hi.reaches
  refine .after (close_yields (hc.reaches hd) _) fun e he => ?_
  obtain ⟨b, hb, he⟩ := he
  have hend := hb.trans he.reaches
  have hreach := hd.trans hend
  have hlt := hend.length_le.trans_lt (hi.length_lt.trans_le hinside.length_le)
  -- what the braces hold has a character of them before it and one after it
  have hstart : c.pos < (c.advance n).pos := Cursor.advance_lt (List.ne_nil_of_length_pos (by omega)) hn
  exact .pure ⟨⟨hreach, hlt, rfl⟩, hi.spelled.call (hc.cuts hreach), hi.placed.call hinside.pos_le hend.pos_le,
    hi.placed.inset (hstart.trans_le hskip.pos_le) (hb.pos_le.trans_lt (pos_lt_closing he))⟩

end TypedTemplate.Template.Reader
