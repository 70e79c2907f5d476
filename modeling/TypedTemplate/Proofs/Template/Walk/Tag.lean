/-
The walk through opening tags. A value in quotes is passed over one character a turn, and read in runs of text.
-/
import TypedTemplate.Proofs.Template.Reader.Tag
import TypedTemplate.Proofs.Template.Walk.Expr

namespace TypedTemplate.Template.Walk

open Text Lexer Reader

variable {source : String} {c d : Cursor}

/-! ## Values -/

/-- Plain text of a value ends at the first place where it can. -/
theorem endsQuotedText_drop {quote : Char} : ∀ {cs : List Char} {k : Nat}, k ≤ quotedTextLength quote cs →
    (endsQuotedText quote (cs.drop k) = true ↔ quotedTextLength quote cs = k)
  | [], k, h => by
    obtain rfl : k = 0 := Nat.le_zero.1 h
    exact ⟨fun _ => rfl, fun _ => rfl⟩
  | x :: xs, 0, _ => by
    rw [List.drop_zero, quotedTextLength]
    split
    · simpa
    · rename_i hends
      simp [hends]
  | x :: xs, k + 1, h => by
    rw [quotedTextLength] at h ⊢
    split at h
    · omega
    · rename_i hends
      rw [List.drop_succ_cons, endsQuotedText_drop (Nat.le_of_succ_le_succ h), if_neg hends, Nat.add_left_inj]

theorem textPart_eq (hc : c.On source) (h : c.Reaches d) : textPart source c.pos d.pos =
    .ok (if c.pos < d.pos then [ConcatPart.text (runBetween c d)] else []) := by
  unfold textPart
  split
  · rw [cut_eq (hc.slice (passes_runBetween h))]
    rfl
  · rfl

theorem quotedParts_eq {quote : Char} (hquote : quote.utf8Size = 1) {start : Cursor} :
    ∀ {n m k : Nat} {c d : Cursor}, c.On source → d = c.advance k → k ≤ quotedTextLength quote c.rest →
      d.rest.length < n → c.rest.length < m →
      quotedParts source quote start.pos n c.pos d.pos = land (readQuotedParts quote start m c)
  | 0, _, _, _, _, _, _, _, hn, _ => absurd hn (Nat.not_lt_zero _)
  | _ + 1, 0, _, _, _, _, _, _, _, hm => absurd hm (Nat.not_lt_zero _)
  | n + 1, m + 1, k, c, d, hc, hadvance, hk, hn, hm => by
    have hreach : c.Reaches d := hadvance ▸ c.reaches_advance k
    have hd := hc.reaches hreach
    have hends : endsQuotedText quote d.rest = true ↔ quotedTextLength quote c.rest = k := by
      rw [hadvance]
      exact endsQuotedText_drop hk
    unfold quotedParts
    rw [look_eq hd, ok_bind]
    cases hrest : d.rest with
    | nil =>
      rw [hrest] at hends
      unfold readQuotedParts
      simp only [hends.1 rfl, ← hadvance, hrest]
      rfl
    | cons x xs =>
      have hhead : d.rest.head? = some x := by rw [hrest]; rfl
      dsimp only
      rw [hrest] at hends
      split
      · rename_i hend
        unfold readQuotedParts
        simp only [hends.1 hend, ← hadvance, hrest]
        rw [textPart_eq hc hreach, ok_bind]
        split
        · rename_i hx
          subst hx
          exact congrArg (fun p => Except.ok (_, p)) ((pos_head hhead).trans (by rw [hquote])).symm
        · rename_i hx
          have hopen : d.startsWith "\x7b\x7b" = true := by
            simp only [endsQuotedText, Bool.or_eq_true, beq_iff_eq, hx, false_or, Bool.and_eq_true] at hend
            obtain ⟨ys, hys⟩ := List.head?_eq_some_iff.1 hend.2
            exact Cursor.startsWith_of_rest (by rw [hrest, hend.1, hys]; rfl)
          rw [curly_eq hd hopen, ok_bind]
          split
          · rw [braces_eq hd]
            rfl
          · rw [mustache_eq hd hopen]
            refine carry_bind fun found h => ?_
            have hfound := (readMustache_yields hd).ok found h
            have hlt := hfound.length_lt
            have hle := hreach.length_le
            dsimp only
            rw [quotedParts_eq hquote (m := m) (d := found.2) (hd.reaches hfound.reaches) rfl (Nat.zero_le _) (by omega)
              (by omega)]
            exact carry_bind fun _ _ => rfl
      · rename_i hend
        have hlt := (passes_head hhead).length_lt (by simp)
        rw [← pos_head hhead]
        refine quotedParts_eq hquote (k := k + 1) hc ?_ ?_ (by omega) hm
        · rw [hadvance, Cursor.advance_add]
        · have hne := mt hends.2 hend
          omega

theorem quotedValue_eq {quote : Char} (hc : c.On source) (hquote : quote ∈ quotes) (hhead : c.rest.head? = some quote) :
    quotedValue source quote c.pos = land (readQuotedValue quote c) := by
  have hopen := passes_head hhead
  have hinside := hc.reaches hopen.reaches
  have hsize := size_quote hquote
  have hone : quote.utf8Size = 1 := by simpa [size_eq_byteLength] using hsize
  have hle := Nat.lt_succ_of_le hopen.reaches.length_le
  unfold quotedValue readQuotedValue
  rw [show c.pos + 1 = (c.advance 1).pos by rw [pos_head hhead, hone],
    quotedParts_eq hone (d := c.advance 1) hinside rfl (Nat.zero_le _) (length_lt_bound hinside) hle]
  refine carry_bind fun found h => ?_
  have hparts := (readQuotedParts_yields hc hopen.reaches hle).ok found h
  obtain ⟨q, -, hclose, -⟩ := hparts.ends
  have hstop : found.2.pos - 1 = q.pos := by rw [hclose.pos, hsize, Nat.add_sub_cancel]
  dsimp only
  split
  · rfl
  · rename_i hany
    rcases hparts.between hinside hclose (Bool.eq_false_iff.2 hany) with ⟨hnil, hslice⟩ | ⟨t, htext, hslice⟩
    · rw [hstop, cut_eq hslice, hnil]
      rfl
    · rw [hstop, cut_eq hslice, htext]
      rfl

theorem bareValue_eq (hc : c.On source) (name : String) :
    bareValue source name c.pos = land (readBareValue name c) := by
  have hafter := hc.reaches (c.reaches_skipWhile fun d => !isBlank d && d != '>')
  unfold bareValue readBareValue
  rw [takeRun_eq hc, ok_bind]
  dsimp only
  rw [look_eq hafter, ok_bind, Cursor.run, String.toList_ofList]
  have hsplit : c.rest = c.rest.takeWhile (fun d => !isBlank d && d != '>') ++
      (c.skipWhile fun d => !isBlank d && d != '>').rest := List.takeWhile_append_dropWhile.symm
  generalize c.rest.takeWhile (fun d => !isBlank d && d != '>') = run at hsplit ⊢
  generalize (c.skipWhile fun d => !isBlank d && d != '>') = b at hsplit ⊢
  have hrest : c.rest.drop run.length = b.rest := by rw [hsplit, List.drop_left]
  rw [hrest]
  -- characters that stand at the place are the text up to the place after them
  have hchars {chars more : List Char} (h : c.rest = chars ++ more) :
      (if chars.isEmpty then refuse ⟨.invalidAttribute (.valueExpected name), .empty c.pos⟩
        else Except.ok (AttrValue.text ⟨String.ofList chars, ⟨c.pos, c.pos + byteLength chars⟩⟩,
          c.pos + byteLength chars)) =
      land (if chars.isEmpty then attributeError (.valueExpected name) (.empty c.pos)
        else .ok (.text (runBetween c (c.advance chars.length)), c.advance chars.length)) := by
    have hpasses : c.Passes (String.ofList chars) (c.advance chars.length) :=
      Cursor.passes_of_rest (by rw [h, String.toList_ofList]) (by rw [String.toList_ofList])
    have hpos : (c.advance chars.length).pos = c.pos + byteLength chars := by
      rw [hpasses.pos, size_eq_byteLength, String.toList_ofList]
    have htext : (runBetween c (c.advance chars.length)).chars = String.ofList chars := by
      rw [runBetween]
      simp [Cursor.advance, h]
    split
    · rfl
    · rw [← hpos, ← htext]
      rfl
  by_cases hbracket : b.startsWith ">" = true
  · have hb := (Cursor.passes_of_startsWith hbracket (n := 1) rfl).rest
    cases hstrip : stripEnd? ['/'] run with
    | none =>
      simp only [if_pos hbracket, Option.getD_none]
      exact hchars hsplit
    | some shorter =>
      have hslash : c.rest = shorter ++ ('/' :: b.rest) := by
        rw [hsplit, stripEnd?_eq_some hstrip, List.append_assoc]
        rfl
      rw [show b.rest = '>' :: (b.advance 1).rest from hb]
      simp only [if_pos hbracket, Option.getD_some]
      exact hchars hslash
  · have hnot : ∀ shorter tail, stripEnd? ['/'] run = some shorter → b.rest = '>' :: tail → False :=
      fun _ _ _ hb => hbracket (Cursor.startsWith_of_rest hb)
    simp only [if_neg hbracket]
    exact hchars hsplit

theorem value_eq (hc : c.On source) (name : String) : value source name c.pos = land (readValue name c) := by
  unfold value
  rw [look_eq hc, ok_bind]
  split
  all_goals unfold readValue
  · rename_i hrest
    simp only [hrest]
    exact quotedValue_eq hc (by decide) (by rw [hrest]; rfl)
  · rename_i hrest
    simp only [hrest]
    exact quotedValue_eq hc (by decide) (by rw [hrest]; rfl)
  · rename_i hrest
    have hopen : c.startsWith "\x7b\x7b" = true := Cursor.startsWith_of_rest hrest
    simp only [hrest]
    rw [curly_eq hc hopen, ok_bind]
    split
    · rw [braces_eq hc]
      rfl
    · rw [mustache_eq hc hopen]
      exact carry_bind fun _ _ => rfl
  · simp only
    exact bareValue_eq hc name

theorem attr_eq (hc : c.On source) : attr source c.pos = land (readAttribute c) := by
  have hafter := hc.reaches (c.reaches_skipWhile isAttributeChar)
  have hsign := hafter.reaches (Cursor.reaches_skipWhile isBlank _)
  unfold attr readAttribute
  rw [look_eq hc, ok_bind, takeRun_eq hc, ok_bind]
  dsimp only
  split
  · rfl
  · rw [skipBlank_eq hafter, ok_bind, look_eq hsign, ok_bind]
    split
    · rename_i hequals
      have hinside := hsign.reaches (Cursor.reaches_advance _ 1)
      rw [← pos_advance 1 hequals rfl rfl, skipBlank_eq hinside, ok_bind,
        value_eq (hinside.reaches (Cursor.reaches_skipWhile isBlank _))]
      exact carry_bind fun _ _ => rfl
    · rfl

/-! ## Block parameters -/

theorem tagParamNames_eq {start : Nat} : ∀ {n m : Nat} {c : Cursor}, c.On source → c.rest.length < n →
    c.rest.length < m → tagParamNames source start n c.pos = land (readTagParamNames start m c)
  | 0, _, _, _, hn, _ => absurd hn (Nat.not_lt_zero _)
  | _ + 1, 0, _, _, _, hm => absurd hm (Nat.not_lt_zero _)
  | n + 1, m + 1, c, hc, hn, hm => by
    have hblank := c.reaches_skipWhile isBlank
    have hb := hc.reaches hblank
    have hle := hblank.length_le
    unfold tagParamNames
    rw [skipBlank_eq hc, ok_bind, look_eq hb, ok_bind]
    split
    all_goals unfold readTagParamNames
    · rename_i hrest
      simp only [hrest]
      rfl
    · rename_i hrest
      simp only [hrest]
      exact congrArg (fun p => Except.ok (_, p)) (pos_head (by rw [hrest]; rfl)).symm
    · simp only
      rw [takeRun_eq hb, ok_bind]
      dsimp only
      split
      · rfl
      · rename_i hname
        have hlt := skipWhile_length_lt hname
        rw [tagParamNames_eq (m := m) (hb.reaches (Cursor.reaches_skipWhile isParamChar _)) (by omega) (by omega)]
        exact carry_bind fun _ _ => rfl

theorem tagParams_eq (hc : c.On source) (hstarts : startsParams c.rest = true) :
    tagParams source c.pos = land (readTagParams c) := by
  obtain ⟨hword, hbar⟩ := startsParams_word hstarts
  have hblank := (c.reaches_advance 2).trans (Cursor.reaches_skipWhile isBlank _)
  have hnames := hblank.trans (Cursor.reaches_advance _ 1)
  have hon := hc.reaches hnames
  unfold tagParams readTagParams
  rw [← pos_advance 2 hword rfl rfl, skipBlank_eq (hc.reaches (c.reaches_advance 2)), ok_bind,
    show ((c.advance 2).skipWhile isBlank).pos + 1 = _ from (pos_head hbar).symm,
    tagParamNames_eq hon (length_lt_bound hon) (Nat.lt_succ_of_le hnames.length_le)]
  refine carry_bind fun found _ => ?_
  dsimp only
  split
  · rfl
  · rfl

/-! ## The whole tag -/

theorem tagContents_eq {unclosed : ParseError} : ∀ {n m : Nat} {c : Cursor}, c.On source → c.rest.length < n →
    c.rest.length < m → tagContents source unclosed n c.pos = land (readTagContents unclosed m c)
  | 0, _, _, _, hn, _ => absurd hn (Nat.not_lt_zero _)
  | _ + 1, 0, _, _, _, hm => absurd hm (Nat.not_lt_zero _)
  | n + 1, m + 1, c, hc, hn, hm => by
    have hblank := c.reaches_skipWhile isBlank
    have hle := hblank.length_le
    unfold tagContents
    rw [skipBlank_eq hc, ok_bind, look_eq (hc.reaches hblank), ok_bind]
    generalize hb : c.skipWhile isBlank = b at *
    have hon := hc.reaches hblank
    -- what follows a part is walked through as it is read
    have hmore {after : Cursor} (hreach : b.Reaches after) (hlt : after.rest.length < b.rest.length) :
        tagContents source unclosed n after.pos = land (readTagContents unclosed m after) :=
      tagContents_eq (hon.reaches hreach) (by omega) (by omega)
    split
    all_goals
      unfold readTagContents
      dsimp only
      rw [hb]
    · rename_i hrest
      simp only [hrest]
      rfl
    · rename_i hrest
      have hclose : b.startsWith "/>" = true := Cursor.startsWith_of_rest hrest
      simp only [hrest]
      exact congrArg (fun p => Except.ok (_, p)) (pos_advance 2 hclose rfl rfl).symm
    · rename_i hrest
      simp only [hrest]
      exact congrArg (fun p => Except.ok (_, p)) (pos_head (by rw [hrest]; rfl)).symm
    · rename_i hrest
      have hopen : b.startsWith "\x7b\x7b" = true := Cursor.startsWith_of_rest hrest
      simp only [hrest]
      rw [curly_eq hon hopen, ok_bind]
      cases hcurly : curlyAt b with
      | comment =>
        dsimp only
        rw [mustacheComment_eq hon hopen hcurly]
        refine carry_bind fun found h => ?_
        have hfound := (readMustacheComment_yields hon hopen hcurly).ok found h
        dsimp only
        rw [hmore hfound.reaches hfound.length_lt]
        exact carry_bind fun _ _ => rfl
      | mustache =>
        dsimp only
        rw [mustache_eq hon hopen]
        refine carry_bind fun found h => ?_
        have hfound := (readMustache_yields hon).ok found h
        dsimp only
        rw [hmore hfound.reaches hfound.length_lt]
        exact carry_bind fun _ _ => rfl
      | _ =>
        dsimp only
        rw [braces_eq hon]
        rfl
    · rename_i hnil _ _ _
      simp only
      split
      · rename_i hparams
        rw [tagParams_eq hon hparams]
        refine carry_bind fun found h => ?_
        have hfound := (readTagParams_yields hon hparams).ok found h
        dsimp only
        rw [hmore hfound.1.reaches hfound.2.1]
        exact carry_bind fun _ _ => rfl
      · obtain ⟨x, xs, hcons⟩ := List.exists_cons_of_ne_nil hnil
        have hhead : b.rest.head? = some x := by rw [hcons]; rfl
        have hx : isBlank x = false := head_skipWhile (by rw [hb]; exact hhead)
        rw [attr_eq hon]
        refine carry_bind fun found h => ?_
        have hfound := (readAttribute_yields hon hhead hx).ok found h
        dsimp only
        rw [hmore hfound.reaches hfound.length_lt]
        exact carry_bind fun _ _ => rfl

end TypedTemplate.Template.Walk
