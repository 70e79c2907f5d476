/-
The walk through statements, and with them through whole templates. Plain text ends by bytes where it ends by
characters: what it ends with starts with a character of one byte, and no byte of another character is one of these.
-/
import TypedTemplate.Proofs.Template.Reader.Statement
import TypedTemplate.Proofs.Template.Walk.Tag

namespace TypedTemplate.Template.Walk

open Text Lexer Reader

variable {source : String} {c d : Cursor}

/-! ## Text -/

theorem isPrefixOf_bytes {word : List Char} (hword : word.all (·.utf8Size == 1) = true) (cs : List Char) :
    (bytes word).isPrefixOf (bytes cs) = word.isPrefixOf cs := by
  induction word generalizing cs with
  | nil => simp
  | cons x xs ih =>
    rw [List.all_cons, Bool.and_eq_true, beq_iff_eq] at hword
    obtain ⟨hx, hxs⟩ := hword
    rw [bytes_cons, encode_of_low hx]
    cases cs with
    | nil => rfl
    | cons y ys =>
      obtain ⟨bs, hbs⟩ := encode_eq_cons y
      by_cases hy : y = x
      · subst hy
        rw [bytes_cons, encode_of_low hx, List.singleton_append, List.singleton_append, List.isPrefixOf_cons_cons,
          ih hxs, List.isPrefixOf_cons_cons]
        simp
      · have hne : firstByte y ≠ byte x := mt (firstByte_eq_byte hx).1 hy
        rw [bytes_cons, hbs, List.singleton_append, List.cons_append, List.isPrefixOf_cons_cons,
          List.isPrefixOf_cons_cons, beq_eq_false_iff_ne.2 hne.symm, beq_eq_false_iff_ne.2 (Ne.symm hy)]
        rfl

theorem utf8Size_of_isTagStart (x : Char) (h : isTagStart x = true) : x.utf8Size = 1 := by
  simp only [isTagStart, Bool.or_eq_true, beq_iff_eq] at h
  rcases h with ((h | rfl) | rfl) | rfl
  · exact utf8Size_of_isAlpha h
  all_goals rfl

/-- Bytes that do not start with an ASCII byte do not start an ASCII word. -/
theorem startsWith_high {word : String} {b : UInt8} (hb : 128 ≤ b)
    (hword : word.toList.head?.map Char.utf8Size = some 1) (more : List UInt8) :
    startsWith word (b :: more) = false := by
  obtain ⟨x, hhead, hx⟩ := Option.map_eq_some_iff.1 hword
  obtain ⟨xs, hxs⟩ := List.head?_eq_some_iff.1 hhead
  have hbyte : byte x ≠ b := fun h => absurd (byte_lt hx) (UInt8.not_lt.2 (h ▸ hb))
  rw [startsWith, hxs, bytes_cons, encode_of_low hx, List.singleton_append, List.isPrefixOf_cons_cons,
    beq_eq_false_iff_ne.2 hbyte]
  rfl

theorem startsElement_high {b : UInt8} (hb : 128 ≤ b) (more : List UInt8) : startsElement (b :: more) = false := by
  have hbyte : b ≠ byte '<' := fun h => absurd (h ▸ hb) (by decide)
  cases more with
  | nil => rfl
  | cons d more => rw [startsElement, beq_eq_false_iff_ne.2 hbyte, Bool.false_and]

theorem startsElement_bytes (cs : List Char) : startsElement (bytes cs) = Reader.startsElement cs := by
  cases cs with
  | nil => rfl
  | cons x xs =>
    obtain ⟨bs, hbs⟩ := encode_eq_cons x
    by_cases hx : x = '<'
    · subst hx
      rw [bytes_cons, encode_of_low rfl]
      cases xs with
      | nil => rfl
      | cons y ys =>
        obtain ⟨cs, hcs⟩ := encode_eq_cons y
        rw [bytes_cons, hcs, List.singleton_append, List.cons_append, startsElement, Reader.startsElement,
          ascii_firstByte utf8Size_of_isTagStart, beq_self_eq_true, Bool.true_and]
    · have hread : Reader.startsElement (x :: xs) = false := by
        unfold Reader.startsElement
        split
        · rename_i h
          exact absurd (List.cons.inj h).1 hx
        · rfl
      have hbyte : firstByte x ≠ byte '<' := mt (firstByte_eq_byte rfl).1 hx
      rw [bytes_cons, hbs, List.cons_append, hread]
      cases bs ++ bytes xs with
      | nil => rfl
      | cons b more => rw [startsElement, beq_eq_false_iff_ne.2 hbyte, Bool.false_and]

theorem endsText_bytes (cs : List Char) : endsText (bytes cs) = Reader.endsText cs := by
  simp only [endsText, startsWith, Reader.endsText, startsElement_bytes]
  rw [isPrefixOf_bytes rfl, isPrefixOf_bytes rfl, isPrefixOf_bytes rfl]

/-- Bytes that are not ASCII neither end plain text nor escape what ends it. -/
theorem textStop_high (start : Nat) (more : List UInt8) : ∀ {high : List UInt8} (front : List UInt8),
    (∀ b ∈ high, 128 ≤ b) → textStop (front ++ (high ++ more)) start front.length =
      textStop (front ++ (high ++ more)) start (front.length + high.length)
  | [], _, _ => rfl
  | b :: high, front, h => by
    obtain ⟨hb, hhigh⟩ := List.forall_mem_cons.1 h
    have ih := textStop_high start more (front ++ [b]) hhigh
    rw [List.append_assoc, List.length_append, List.length_singleton] at ih
    have hdrop : (front ++ (b :: high ++ more)).drop front.length = b :: (high ++ more) := List.drop_left
    have hends : endsText (b :: (high ++ more)) = false := by
      rw [endsText, startsWith_high hb rfl, startsWith_high hb rfl,
        startsWith_high hb rfl, startsElement_high hb]
      rfl
    conv_lhs => rw [textStop, hdrop, startsWith_high hb rfl, hends, Bool.and_false]
    rw [if_pos (by simp), if_neg (by decide), if_neg (by decide), List.length_cons, Nat.add_comm high.length,
      ← Nat.add_assoc]
    exact ih

/-- From the first byte of a character on, plain text goes on to its last one. -/
theorem textStop_inside (start : Nat) (done : List Char) (x : Char) (rest : List Char) :
    textStop (bytes (done ++ x :: rest)) start (byteLength done + 1) =
      textStop (bytes (done ++ x :: rest)) start (byteLength done + x.utf8Size) := by
  by_cases hx : x.utf8Size = 1
  · rw [hx]
  · obtain ⟨bs, hbs⟩ := encode_eq_cons x
    have hlength : x.utf8Size = bs.length + 1 := by rw [← String.length_utf8EncodeChar, hbs, List.length_cons]
    have hhigh : ∀ b ∈ bs, 128 ≤ b := fun b hb => encode_of_high hx b (hbs ▸ List.mem_cons_of_mem _ hb)
    have hskip := textStop_high start (bytes rest) (bytes done ++ [firstByte x]) hhigh
    rw [List.append_assoc, List.singleton_append, ← List.cons_append, ← hbs, ← bytes_cons, ← bytes_append,
      List.length_append, length_bytes, List.length_singleton] at hskip
    rw [hskip, hlength, Nat.add_assoc, Nat.add_comm 1]

/-- A turn at the first byte of a character, and with it the turns at its other bytes. -/
theorem textStop_step {start : Nat} (done : List Char) (x : Char) (rest : List Char) :
    textStop (bytes (done ++ x :: rest)) start (byteLength done) =
      if "\\\x7b\x7b".toList.isPrefixOf (x :: rest) then
        textStop (bytes (done ++ x :: rest)) start (byteLength done + 3)
      else if start < byteLength done && Reader.endsText (x :: rest) then byteLength done
      else textStop (bytes (done ++ x :: rest)) start (byteLength done + x.utf8Size) := by
  have hlt : byteLength done < (bytes (done ++ x :: rest)).length := by
    have := x.utf8Size_pos
    simp
    omega
  have hdrop : (bytes (done ++ x :: rest)).drop (byteLength done) = bytes (x :: rest) := by
    rw [bytes_append, ← length_bytes, List.drop_left]
  conv_lhs => rw [textStop, if_pos hlt, hdrop, startsWith, isPrefixOf_bytes rfl, endsText_bytes, textStop_inside]

theorem not_escape {x : Char} {rest : List Char} (h : ∀ more, x = '\\' → rest = '\x7b' :: '\x7b' :: more → False) :
    ¬"\\\x7b\x7b".toList.isPrefixOf (x :: rest) = true := by
  intro hprefix
  obtain ⟨more, hmore⟩ := List.isPrefixOf_iff_prefix.1 hprefix
  obtain ⟨hx, hrest⟩ := List.cons.inj (show '\\' :: '\x7b' :: '\x7b' :: more = x :: rest from hmore)
  exact h more hx.symm hrest.symm

theorem textStop_eq {start : Nat} (cs : List Char) : ∀ done : List Char, start ≤ byteLength done →
    (start < byteLength done ∨ Reader.endsText cs = false) →
    textStop (bytes (done ++ cs)) start (byteLength done) = byteLength done + byteLength (cs.take (textLength cs)) := by
  fun_induction textLength cs with
  | case1 =>
    intro done _ _
    rw [textStop, if_neg (by simp)]
    rfl
  | case2 rest ih =>
    intro done hle _
    have hthree : byteLength (done ++ ['\\', '\x7b', '\x7b']) = byteLength done + 3 := by
      rw [byteLength_append]
      rfl
    have ih := ih (done ++ ['\\', '\x7b', '\x7b']) (by omega) (.inl (by omega))
    rw [List.append_assoc, hthree] at ih
    have hprefix : "\\\x7b\x7b".toList.isPrefixOf ('\\' :: '\x7b' :: '\x7b' :: rest) = true :=
      List.isPrefixOf_iff_prefix.2 ⟨rest, rfl⟩
    rw [textStop_step, if_pos hprefix]
    refine ih.trans ?_
    rw [Nat.add_assoc, List.take_succ_cons, List.take_succ_cons, List.take_succ_cons]
    exact congrArg (byteLength done + ·) (byteLength_append ['\\', '\x7b', '\x7b'] _).symm
  | case3 x rest hescape hends =>
    intro done _ h
    have hprefix := not_escape hescape
    have hlt : start < byteLength done := h.resolve_right (by rw [hends]; decide)
    rw [textStop_step, if_neg hprefix, if_pos (by simp [hlt, hends])]
    rfl
  | case4 x rest hescape hends ih =>
    intro done hle _
    have hprefix := not_escape hescape
    have hpos := x.utf8Size_pos
    have hone : byteLength (done ++ [x]) = byteLength done + x.utf8Size := by
      rw [byteLength_append]
      rfl
    have ih := ih (done ++ [x]) (by omega) (.inl (by omega))
    rw [List.append_assoc, hone] at ih
    rw [textStop_step, if_neg hprefix, if_neg (by simp [hends])]
    refine ih.trans ?_
    rw [Nat.add_assoc]
    rfl

theorem text_eq (hc : c.On source) (hends : Reader.endsText c.rest = false) (hrest : c.rest ≠ []) :
    text source c.pos = .ok ((readText c).1, (readText c).2.pos) := by
  have hlength : max 1 (textLength c.rest) = textLength c.rest := by
    obtain ⟨x, xs, hcons⟩ := List.exists_cons_of_ne_nil hrest
    rw [hcons] at hends ⊢
    unfold textLength
    split
    · contradiction
    · omega
    · rename_i h
      cases h
      rw [if_neg (by rw [hends]; decide)]
      omega
  have hstop : textStop (bytes source.toList) c.pos c.pos = (readText c).2.pos := by
    obtain ⟨done, hsource, hpos⟩ := hc
    have hdone : c.pos = byteLength done := hpos.trans (Nat.zero_add _)
    rw [show source.toList = done ++ c.rest from hsource, hdone, textStop_eq _ _ le_rfl (.inr hends), readText, hlength]
    exact congrArg (· + _) hdone.symm
  have hslice : slice source c.pos (readText c).2.pos = some (readText c).1.chars :=
    hc.slice (passes_runBetween (c.reaches_advance _))
  rw [text, hstop, cut_eq hslice]
  rfl

/-! ## Blocks -/

theorem blockClose_eq (hc : c.On source) (hopen : c.startsWith "\x7b\x7b" = true) :
    blockClose source c.pos = land (readBlockClose c) := by
  have hadvance := hc.reaches (c.reaches_advance 2)
  have hskip := hadvance.reaches (reaches_skip .tilde _)
  unfold blockClose readBlockClose
  rw [← pos_advance 2 hopen rfl rfl, skip_eq hadvance, ok_bind, expect_eq hskip]
  refine carry_bind fun slash h => ?_
  obtain ⟨-, -, hafter⟩ := (expect_yields hskip .slash).ok slash h
  have hinside : slash.2.On source := hafter ▸ hskip.reaches (reaches_after _)
  dsimp only
  rw [readExpr_eq hinside]
  refine carry_bind fun found h => ?_
  have hfound := (readExpr_yields hinside).ok found h
  have hon := hinside.reaches hfound.reaches
  dsimp only
  cases found.1 with
  | path p =>
    dsimp only
    rw [skip_eq hon, ok_bind, expectClose_eq (hon.reaches (reaches_skip .tilde _))]
    exact carry_bind fun _ _ => rfl
  | _ => rfl

theorem closing_eq (hc : c.On source) (hopen : c.startsWith "\x7b\x7b" = true) (name : String) :
    closing source name c.pos = land (readClosing name c) := by
  unfold closing readClosing
  rw [blockClose_eq hc hopen]
  refine carry_bind fun found _ => ?_
  dsimp only
  split
  · rfl
  · rfl

/-- A walk through statements that follows a reader of them, at places with at most `n` characters left. -/
def FollowsAll (source : String) (n : Nat) (walk : Children) (children : ReadChildren) : Prop :=
  ∀ (place : Place) {c : Cursor}, c.On source → c.rest.length ≤ n → walk place c.pos = land (children place c)

section

variable {walk : Children} {children : ReadChildren} {k : Nat}

theorem arms_eq (hchildren : YieldsChildren source k children) (hwalk : FollowsAll source k walk children)
    (name : String) : ∀ {n m start : Nat} {i : Invocation} {c : Cursor}, c.On source → c.rest.length < n →
      c.rest.length < m → c.rest.length ≤ k →
      arms source walk name n start i c.pos = land (readArms children name m start i c)
  | 0, _, _, _, _, _, hn, _, _ => absurd hn (Nat.not_lt_zero _)
  | _ + 1, 0, _, _, _, _, _, hm, _ => absurd hm (Nat.not_lt_zero _)
  | n + 1, m + 1, start, i, c, hc, hn, hm, hk => by
    unfold arms readArms
    rw [hwalk .block hc hk]
    refine carry_bind fun body h => ?_
    have hbody := (hchildren .block hc hk).ok body h
    have hle := hbody.reaches.length_le
    have hafter := hc.reaches hbody.reaches
    dsimp only
    simp only [le_pos_iff_atEnd hafter]
    split
    · rfl
    · rename_i hend
      obtain ⟨hopen, -⟩ := hbody.stops.resolve_left (not_atEnd hend)
      rw [curly_eq hafter hopen, ok_bind]
      split
      · rfl
      · have hadvance := hafter.reaches (body.2.reaches_advance 2)
        have hskip := hadvance.reaches (reaches_skip .tilde _)
        have hinside := hskip.reaches (reaches_after _)
        rw [← pos_advance 2 hopen rfl rfl, skip_eq hadvance, ok_bind, lex_eq hskip, ok_bind, token_stop,
          show lex source _ = .ok (peek _) from lex_eq hinside, ok_bind]
        have hshort := ((body.2.reaches_advance 2).trans ((reaches_skip .tilde _).trans (reaches_after _))).length_le
        split
        · rw [skip_eq hinside, ok_bind, expectClose_eq (hinside.reaches (reaches_skip .tilde _))]
          refine carry_bind fun opened h => ?_
          obtain ⟨b, hb, hopened⟩ := (close_yields hinside false).ok opened h
          have hreach := hb.trans hopened.reaches
          have hless := hreach.length_le
          have hin := hinside.reaches hreach
          rw [hwalk .block hin (by omega)]
          refine carry_bind fun other h => ?_
          have hother := (hchildren .block hin (by omega)).ok other h
          have hstop := hin.reaches hother.reaches
          dsimp only
          simp only [le_pos_iff_atEnd hstop]
          split
          · rfl
          · rename_i hend'
            rw [curly_eq hstop (hother.stops.resolve_left (not_atEnd hend')).1, ok_bind]
            split
            · rw [braces_eq hstop]
              rfl
            · rfl
        · rw [invocationAt_eq hinside]
          refine carry_bind fun chained h => ?_
          have hchained := (readInvocationAt_yields hinside).ok chained h
          have hlt := hchained.length_lt
          have hafter' := hinside.reaches hchained.reaches
          dsimp only
          rw [skip_eq hafter', ok_bind, expectClose_eq (hafter'.reaches (reaches_skip .tilde _))]
          refine carry_bind fun opened h => ?_
          obtain ⟨b, hb, hopened⟩ := (close_yields hafter' false).ok opened h
          have hreach := hb.trans hopened.reaches
          have hless := hreach.length_le
          rw [arms_eq hchildren hwalk name (m := m) (hafter'.reaches hreach) (by omega) (by omega) (by omega)]
          exact carry_bind fun _ _ => rfl

theorem block_eq (hchildren : YieldsChildren source k children) (hwalk : FollowsAll source k walk children)
    (hc : c.On source) (hk : c.rest.length ≤ k + 1) (hopen : c.startsWith "\x7b\x7b" = true) :
    block source walk c.pos = land (readBlock children c) := by
  have hadvance := hc.reaches (c.reaches_advance 2)
  have hskip := (c.reaches_advance 2).trans (reaches_skip .tilde _)
  unfold block readBlock
  rw [← pos_advance 2 hopen rfl rfl, skip_eq hadvance, ok_bind, expect_eq (hc.reaches hskip)]
  refine carry_bind fun hash h => ?_
  obtain ⟨hkind, -, hhash⟩ := (expect_yields (hc.reaches hskip) .hash).ok hash h
  have hin := hskip.trans (reaches_after _)
  have hlt := (next_length_lt hkind (by decide)).trans_le hskip.length_le
  rw [← hhash] at hin hlt
  dsimp only
  rw [invocationAt_eq (hc.reaches hin)]
  refine carry_bind fun i h => ?_
  have hi := (readInvocationAt_yields (hc.reaches hin)).ok i h
  have hafter := hin.trans hi.reaches
  dsimp only
  rw [skip_eq (hc.reaches hafter), ok_bind, expectClose_eq ((hc.reaches hafter).reaches (reaches_skip .tilde _))]
  refine carry_bind fun opened h => ?_
  obtain ⟨b, hb, hopened⟩ := (close_yields (hc.reaches hafter) false).ok opened h
  have hless := (hi.reaches.trans (hb.trans hopened.reaches)).length_le
  have hbody := hc.reaches ((hafter.trans hb).trans hopened.reaches)
  cases hcallee : i.1.callee with
  | path path =>
    dsimp only
    rw [arms_eq hchildren hwalk path.written hbody (length_lt_bound hbody) (m := c.rest.length + 1) (by omega)
      (by omega)]
    refine carry_bind fun block h => ?_
    have hblock := (readArms_yields hchildren path.written hc (hafter.trans hb) hopened hi.spelled (by omega)
      (by omega)).ok block h
    dsimp only
    rw [closing_eq (hbody.reaches hblock.reaches) hblock.braces]
    exact carry_bind fun _ _ => rfl
  | _ => rfl

/-! ## Elements -/

theorem closeTag_eq (hc : c.On source) (hopen : c.startsWith "</" = true) (tag : String) :
    closeTag source tag c.pos = land (readCloseTag tag c) := by
  have hnamed := hc.reaches (c.reaches_advance 2)
  have hafter := hnamed.reaches (Cursor.reaches_skipWhile isCloseTagChar _)
  have hbracket := hafter.reaches (Cursor.reaches_skipWhile isBlank _)
  unfold closeTag readCloseTag
  rw [← pos_advance 2 hopen rfl rfl, takeRun_eq hnamed, ok_bind]
  dsimp only
  rw [skipBlank_eq hafter, ok_bind, look_eq hbracket, ok_bind]
  split
  · rfl
  · rename_i hend
    split
    · rfl
    · rw [← pos_advance 1 (by simpa using hend) rfl rfl]
      rfl

theorem element_eq (hchildren : YieldsChildren source k children) (hwalk : FollowsAll source k walk children)
    (hc : c.On source) (hk : c.rest.length ≤ k + 1) (hopen : c.rest.head? = some '<') :
    element source walk c.pos = land (readElement children c) := by
  have hlt := (passes_head hopen).length_lt (by decide)
  have hname := (c.advance 1).reaches_skipWhile isTagChar
  have hnamed := (c.reaches_advance 1).trans hname
  unfold element readElement
  rw [show c.pos + 1 = (c.advance 1).pos from (pos_head hopen).symm, takeRun_eq (hc.reaches (c.reaches_advance 1)),
    ok_bind]
  dsimp only
  rw [tagContents_eq (hc.reaches hnamed) (length_lt_bound (hc.reaches hnamed)) (Nat.lt_succ_of_le hnamed.length_le)]
  refine carry_bind fun contents h => ?_
  have hcontents := (readTagContents_yields (hc.cuts hnamed) (hc.reaches hnamed)
    (Nat.lt_succ_of_le hnamed.length_le)).ok contents h
  have hreach := hcontents.ends.reaches
  have hle := (hname.trans hreach).length_le
  have hbody := hc.reaches (hnamed.trans hreach)
  dsimp only
  split
  · rfl
  · rw [hwalk .element hbody (by omega)]
    refine carry_bind fun body h => ?_
    have hstops := (hchildren .element hbody (by omega)).ok body h
    have hclosing := hbody.reaches hstops.reaches
    dsimp only
    simp only [le_pos_iff_atEnd hclosing]
    split
    · rfl
    · rename_i hend
      rw [closeTag_eq hclosing (hstops.stops.resolve_left (not_atEnd hend))]
      exact carry_bind fun _ _ => rfl

/-! ## Statements -/

/-- What is read for a statement, with a position for the place after it. -/
abbrev landFound : Read (Option (Statement × Cursor)) → Answer (Option (Statement × Nat)) :=
  carry (Option.map fun found => (found.1, found.2.pos))

theorem curlyStatement_eq (hchildren : YieldsChildren source k children) (hwalk : FollowsAll source k walk children)
    (place : Place) (hc : c.On source) (hk : c.rest.length ≤ k + 1) (hopen : c.startsWith "\x7b\x7b" = true) :
    curlyStatement source walk place c.pos = landFound (readCurly children place c) := by
  unfold curlyStatement readCurly
  rw [curly_eq hc hopen, ok_bind]
  cases hcurly : curlyAt c with
  | comment =>
    dsimp only
    rw [mustacheComment_eq hc hopen hcurly]
    exact carry_bind fun _ _ => rfl
  | blockOpen =>
    dsimp only
    rw [block_eq hchildren hwalk hc hk hopen]
    exact carry_bind fun _ _ => rfl
  | mustache =>
    dsimp only
    rw [mustache_eq hc hopen]
    exact carry_bind fun _ _ => rfl
  | otherwise =>
    dsimp only
    split
    · rfl
    · rw [braces_eq hc]
      rfl
  | blockClose =>
    dsimp only
    split
    · rfl
    · rw [braces_eq hc]
      rfl

theorem statement_eq (hchildren : YieldsChildren source k children) (hwalk : FollowsAll source k walk children)
    (place : Place) (hc : c.On source) (hk : c.rest.length ≤ k + 1) (hrest : c.rest ≠ []) :
    statement source walk place c.pos = landFound (readStatement children place c) := by
  unfold statement readStatement
  rw [look_eq hc, ok_bind, startsElement_bytes]
  split
  · rename_i hclose
    split
    · rfl
    · rw [← pos_advance 2 hclose rfl rfl, takeRun_eq (hc.reaches (c.reaches_advance 2)), ok_bind]
      rfl
  · rename_i hclose
    split
    · rename_i hopen
      rw [comment_eq hc hopen]
      exact carry_bind fun _ _ => rfl
    · rename_i hcomment
      split
      · rename_i hopen
        rw [element_eq hchildren hwalk hc hk (head?_of_startsElement hopen)]
        exact carry_bind fun _ _ => rfl
      · rename_i helement
        split
        · rename_i hopen
          exact curlyStatement_eq hchildren hwalk place hc hk hopen
        · rename_i hopen
          have hends : Reader.endsText c.rest = false := by
            simp only [Reader.endsText, Bool.or_eq_false_iff]
            exact ⟨⟨⟨Bool.eq_false_iff.2 hopen, Bool.eq_false_iff.2 hclose⟩, Bool.eq_false_iff.2 hcomment⟩,
              Bool.eq_false_iff.2 helement⟩
          rw [text_eq hc hends hrest]
          rfl

end

theorem statements_eq : ∀ {n m : Nat} (place : Place) {c : Cursor}, c.On source → c.rest.length < n →
    c.rest.length ≤ m → statements source n place c.pos = land (readStatements m place c)
  | 0, _, _, _, _, hn, _ => absurd hn (Nat.not_lt_zero _)
  | n + 1, 0, place, c, hc, hn, hm => by
    have hend : c.atEnd = true := List.isEmpty_iff.2 (List.length_eq_zero_iff.1 (Nat.le_zero.1 hm))
    rw [statements, readStatements, if_pos ((le_pos_iff_atEnd hc).2 hend)]
    rfl
  | n + 1, m + 1, place, c, hc, hn, hm => by
    unfold statements readStatements
    simp only [le_pos_iff_atEnd hc]
    split
    · rfl
    · rename_i hend
      have hpos := List.length_pos_iff.2 (not_atEnd hend)
      -- what a statement holds starts after its first character, so both bounds are enough there
      have hwalk : FollowsAll source (min (n - 1) m) (statements source n) (readStatements m) :=
        fun place _ hd hle => statements_eq place hd (by omega) (by omega)
      have hyields : YieldsChildren source (min (n - 1) m) (readStatements m) :=
        fun place _ hd hle => readStatements_yields m place hd (by omega)
      rw [statement_eq hyields hwalk place hc (by omega) (not_atEnd hend)]
      refine carry_bind fun found h => ?_
      have hfound := (readStatement_yields hyields place hc (by omega) (not_atEnd hend)).ok found h
      cases found with
      | none => rfl
      | some found =>
        have hs : StatementAt source c found.1 found.2 := hfound
        have hlt := hs.length_lt
        dsimp only [Option.map]
        rw [hwalk place (hc.reaches hs.reaches) (by omega)]
        exact carry_bind fun _ _ => rfl

/-- From inside of a character, nothing is read. -/
theorem statements_inside {place : Place} {n p : Nat} (hp : ¬Boundary source p) (hlt : p < size source) :
    statements source (n + 1) place p = .error .slice := by
  have hat : Cursor.at? source p = none := by
    rw [boundary_iff, Option.not_isSome_iff_eq_none] at hp
    rw [Cursor.at?, hp]
    rfl
  rw [statements, if_neg (by omega), statement, look, hat]
  rfl

theorem parse_eq (source : String) : parse source = carry id (Template.parse source) := by
  have hstart : (Cursor.ofText source).On source := .refl _
  unfold parse Template.parse
  rw [show (0 : Nat) = (Cursor.ofText source).pos from rfl,
    statements_eq .root hstart (length_lt_bound hstart) (m := source.length) (le_of_eq String.length_toList)]
  exact carry_bind fun _ _ => rfl

end TypedTemplate.Template.Walk
