/-
Passing over tokens by bytes and by characters. Between a backslash and the end of the character after it a walk
may stop inside that character; all of its bytes that are left are then none of ASCII, and no loop stops at such
a byte, so the walk comes out between characters again, or past the end of the text.
-/
import TypedTemplate.Proofs.Script.Walk.Basic

namespace TypedTemplate.Script.Native.Walk

open Text

variable {cs done rest : List Char} {c d quote : Char} {b : UInt8} {pos : Nat} {bracketed : Bool}

/-! ## Bytes where characters stand -/

theorem byteAt_here (done : List Char) (c : Char) (rest : List Char) :
    byteAt (done ++ c :: rest) (byteLength done) = some (firstByte c) :=
  getElem?_bytes done c rest

theorem byteAt_end {n : Nat} (h : byteLength cs ≤ n) : byteAt cs n = none :=
  getElem?_bytes_end cs h

theorem byteLength_concat (done : List Char) (c : Char) :
    byteLength (done ++ [c]) = byteLength done + c.utf8Size := by
  simp

theorem byteLength_concat_low (hc : c.utf8Size = 1) : byteLength (done ++ [c]) = byteLength done + 1 := by
  rw [byteLength_concat, hc]

theorem byteAt_append (done rest : List Char) :
    byteAt (done ++ rest) (byteLength done) = rest.head?.map firstByte := by
  cases rest with
  | nil => exact byteAt_end (by simp)
  | cons c rest => exact byteAt_here done c rest

/-- What follows an ASCII character is told by the next byte, if it is ASCII too. -/
theorem byteAt_next (hc : c.utf8Size = 1) (hd : d.utf8Size = 1) (done rest : List Char) :
    byteAt (done ++ c :: rest) (byteLength done + 1) = some (byte d) ↔ rest.head? = some d := by
  rw [List.append_cons, ← byteLength_concat_low hc, byteAt_append, Option.map_eq_some_iff]
  constructor
  · rintro ⟨e, he, hbyte⟩
    rw [he, (firstByte_eq_byte hd).1 hbyte]
  · intro hhead
    exact ⟨d, hhead, firstByte_of_low hd⟩

/-- A loop that goes on at every byte that is not ASCII comes to the end of a character from inside it. -/
theorem loop_char {α : Type} {f : Nat → α}
    (hf : ∀ pos b, byteAt (done ++ c :: rest) pos = some b → 128 ≤ b → f pos = f (pos + 1)) {i : Nat}
    (hi : 0 < i ∨ c.utf8Size ≠ 1) (hle : i ≤ c.utf8Size) : f (byteLength done + i) = f (byteLength (done ++ [c])) := by
  rw [byteLength_concat]
  by_cases hc : c.utf8Size = 1
  · obtain rfl : i = c.utf8Size := by
      rcases hi with hi | hi
      · omega
      · exact absurd hc hi
    rfl
  · -- back from the end of the character: each of its bytes goes on to the next one
    induction hle using Nat.decreasingInduction with
    | self => rfl
    | of_succ i hlt ih =>
      obtain ⟨b, hb, hhigh⟩ := getElem?_bytes_of_high hc done rest hlt
      rw [hf _ b hb hhigh, Nat.add_assoc]
      exact ih (.inl (Nat.succ_pos i))

/-- A loop passes over a character if it does so when the character is ASCII. -/
theorem loop_pass {α : Type} {f : Nat → α}
    (hf : ∀ pos b, byteAt (done ++ c :: rest) pos = some b → 128 ≤ b → f pos = f (pos + 1))
    (hlow : c.utf8Size = 1 → f (byteLength done) = f (byteLength done + 1)) :
    f (byteLength done) = f (byteLength (done ++ [c])) := by
  by_cases hc : c.utf8Size = 1
  · rw [byteLength_concat, hc, hlow hc]
  · exact loop_char (i := 0) hf (.inr hc) (Nat.zero_le _)

/-- Two bytes after a backslash a loop is in the next character, and it comes to the end of that. -/
theorem loop_escape {α : Type} {f : Nat → α}
    (hf : ∀ pos b, byteAt (done ++ '\\' :: d :: rest) pos = some b → 128 ≤ b → f pos = f (pos + 1)) :
    f (byteLength done + 2) = f (byteLength (done ++ ['\\'] ++ [d])) := by
  have hpos : byteLength done + 2 = byteLength (done ++ ['\\']) + 1 := by
    rw [byteLength_concat]
    rfl
  rw [List.append_cons] at hf
  rw [hpos]
  exact loop_char hf (.inl Nat.one_pos) d.utf8Size_pos

theorem ne_byte_of_high (hb : 128 ≤ b) (hd : d.utf8Size = 1) : b ≠ byte d := by
  rintro rfl
  exact absurd (byte_lt hd) (UInt8.not_lt.2 hb)

/-! ## Where a loop comes out -/

/-- A position after `n` of the characters that follow, or past the end if that is all of them. -/
def Lands (cs done rest : List Char) (n pos : Nat) : Prop :=
  pos = byteLength (done ++ rest.take n) ∨ rest.drop n = [] ∧ byteLength cs ≤ pos

theorem Lands.cons {n : Nat} (h : Lands cs (done ++ [c]) rest n pos) : Lands cs done (c :: rest) (n + 1) pos := by
  rcases h with h | h
  · left
    simpa using h
  · exact .inr h

theorem lands_here (cs done rest : List Char) : Lands cs done rest 0 (byteLength done) := by
  left
  simp

/-! ## Strings -/

theorem skipString_eq (cs : List Char) (quote : UInt8) (pos : Nat) :
    skipString cs quote pos = (byteAt cs pos).elim pos fun b =>
      if b = byte '\\' then skipString cs quote (pos + 2)
      else if b = byte '\n' then pos
      else if b = quote then pos + 1
      else skipString cs quote (pos + 1) := by
  rw [skipString]
  split
  · rename_i h
    rw [h]
    rfl
  · rename_i h
    rw [h]
    rfl

theorem skipString_high (hq : quote.utf8Size = 1) (hb : byteAt cs pos = some b) (hhigh : 128 ≤ b) :
    skipString cs (byte quote) pos = skipString cs (byte quote) (pos + 1) := by
  rw [skipString_eq, hb, Option.elim_some, if_neg (ne_byte_of_high hhigh (by decide)),
    if_neg (ne_byte_of_high hhigh (by decide)), if_neg (ne_byte_of_high hhigh hq)]

/-- At a character that neither ends a string nor escapes another, a string goes on after it. -/
theorem skipString_char (hq : quote.utf8Size = 1) (hescape : c ≠ '\\') (hline : c ≠ '\n') (hquote : c ≠ quote) :
    skipString (done ++ c :: rest) (byte quote) (byteLength done) =
      skipString (done ++ c :: rest) (byte quote) (byteLength (done ++ [c])) := by
  refine loop_pass (fun pos b => skipString_high hq) fun _ => ?_
  rw [skipString_eq, byteAt_here, Option.elim_some, if_neg (mt (firstByte_eq_byte (by decide)).1 hescape),
    if_neg (mt (firstByte_eq_byte (by decide)).1 hline), if_neg (mt (firstByte_eq_byte hq).1 hquote)]

/-- After a backslash a string goes on after the next character. -/
theorem skipString_escape (hq : quote.utf8Size = 1) :
    skipString (done ++ '\\' :: d :: rest) (byte quote) (byteLength done) =
      skipString (done ++ '\\' :: d :: rest) (byte quote) (byteLength (done ++ ['\\'] ++ [d])) := by
  rw [skipString_eq, byteAt_here, Option.elim_some, if_pos (by decide)]
  exact loop_escape fun pos b => skipString_high hq

theorem le_skipString (cs : List Char) (quote : UInt8) (pos : Nat) : pos ≤ skipString cs quote pos := by
  fun_induction skipString cs quote pos with
  | case1 => exact le_rfl
  | case2 => omega
  | case3 => exact le_rfl
  | case4 => exact Nat.le_succ _
  | case5 => omega

/-- By bytes a string ends where it ends by characters. -/
theorem skipString_lands (hq : quote.utf8Size = 1) (rest done : List Char) :
    Lands (done ++ rest) done rest (stringLength quote rest)
      (skipString (done ++ rest) (byte quote) (byteLength done)) := by
  fun_induction stringLength quote rest generalizing done with
  | case1 =>
    rw [skipString_eq, byteAt_end (by simp)]
    exact lands_here _ _ _
  | case2 =>
    rw [skipString_eq, byteAt_here, Option.elim_some, if_neg (by decide), if_pos (by decide)]
    exact lands_here _ _ _
  | case3 c hline =>
    -- a backslash that comes last passes the end by one byte; all else stops there
    refine .inr ⟨rfl, ?_⟩
    by_cases hescape : c = '\\'
    · subst hescape
      rw [skipString_eq, byteAt_here, Option.elim_some, if_pos (by decide), byteLength_concat_low rfl]
      exact le_trans (Nat.le_succ _) (le_skipString _ _ _)
    · by_cases hquote : c = quote
      · subst hquote
        rw [skipString_eq, byteAt_here, Option.elim_some, if_neg (mt (firstByte_eq_byte (by decide)).1 hescape),
          if_neg (mt (firstByte_eq_byte (by decide)).1 hline), if_pos (firstByte_of_low hq),
          byteLength_concat_low hq]
      · rw [skipString_char hq hescape hline hquote]
        exact le_skipString _ _ _
  | case4 d rest ih =>
    rw [skipString_escape hq, List.append_cons done, List.append_cons _ d]
    exact (ih _).cons.cons
  | case5 d rest =>
    rw [skipString_eq, byteAt_here, Option.elim_some, if_neg (by decide), if_pos (by decide)]
    exact lands_here _ _ _
  | case6 d rest hescape hline =>
    rw [skipString_eq, byteAt_here, Option.elim_some, if_neg (mt (firstByte_eq_byte (by decide)).1 hescape),
      if_neg (mt (firstByte_eq_byte (by decide)).1 hline), if_pos (firstByte_of_low hq),
      ← byteLength_concat_low hq]
    exact (lands_here _ _ _).cons
  | case7 c d rest hescape hline hquote ih =>
    rw [skipString_char hq hescape hline hquote, List.append_cons done c]
    exact (ih _).cons

/-! ## Regular expressions -/

theorem skipFlags_step (cs : List Char) (pos : Nat) :
    skipFlags cs pos =
      (byteAt cs pos).elim pos fun b => if ascii Char.isAlpha b then skipFlags cs (pos + 1) else pos := by
  rw [skipFlags]
  split
  · rename_i h
    rw [h]
    rfl
  · rename_i h
    rw [h]
    rfl

theorem skipFlags_eq (rest done : List Char) :
    skipFlags (done ++ rest) (byteLength done) = byteLength (done ++ rest.takeWhile Char.isAlpha) := by
  induction rest generalizing done with
  | nil =>
    rw [skipFlags_step, byteAt_end (by simp)]
    simp
  | cons c rest ih =>
    rw [skipFlags_step, byteAt_here, Option.elim_some, ascii_firstByte fun _ => utf8Size_of_isAlpha]
    by_cases hc : c.isAlpha = true
    · have hrest := ih (done ++ [c])
      rw [← List.append_cons, byteLength_concat_low (utf8Size_of_isAlpha hc)] at hrest
      rw [if_pos hc, hrest, List.takeWhile_cons_of_pos hc, ← List.append_cons]
    · rw [if_neg hc, List.takeWhile_cons_of_neg hc, List.append_nil]

theorem skipRegex_eq (cs : List Char) (bracketed : Bool) (pos : Nat) :
    skipRegex cs bracketed pos = (byteAt cs pos).elim pos fun b =>
      if b = byte '\\' then skipRegex cs bracketed (pos + 2)
      else if b = byte '\n' then pos
      else if b = byte '[' then skipRegex cs true (pos + 1)
      else if b = byte ']' then skipRegex cs false (pos + 1)
      else if b = byte '/' ∧ !bracketed then skipFlags cs (pos + 1)
      else skipRegex cs bracketed (pos + 1) := by
  rw [skipRegex]
  split
  · rename_i h
    rw [h]
    rfl
  · rename_i h
    rw [h]
    rfl

theorem skipRegex_high (hb : byteAt cs pos = some b) (hhigh : 128 ≤ b) :
    skipRegex cs bracketed pos = skipRegex cs bracketed (pos + 1) := by
  have hne : ∀ d : Char, d.utf8Size = 1 → b ≠ byte d := fun d hd => ne_byte_of_high hhigh hd
  rw [skipRegex_eq, hb, Option.elim_some, if_neg (hne _ (by decide)), if_neg (hne _ (by decide)),
    if_neg (hne _ (by decide)), if_neg (hne _ (by decide)), if_neg fun h => hne _ (by decide) h.1]

/-- Whether a regular expression is in brackets after a character of it. -/
theorem skipRegex_char (hescape : c ≠ '\\') (hline : c ≠ '\n') (hslash : ¬ (c = '/' ∧ !bracketed)) :
    skipRegex (done ++ c :: rest) bracketed (byteLength done) =
      skipRegex (done ++ c :: rest) (if c = '[' then true else if c = ']' then false else bracketed)
        (byteLength (done ++ [c])) := by
  have hcode := skipRegex_eq (done ++ c :: rest) bracketed (byteLength done)
  simp only [byteAt_here, Option.elim_some, firstByte_eq_byte (d := '\\') (by decide),
    firstByte_eq_byte (d := '\n') (by decide),
    firstByte_eq_byte (d := '[') (by decide), firstByte_eq_byte (d := ']') (by decide),
    firstByte_eq_byte (d := '/') (by decide), if_neg hescape, if_neg hline, if_neg hslash] at hcode
  -- a bracket changes the state and is ASCII, so the loop over bytes keeps one state within a character
  by_cases hopen : c = '['
  · subst hopen
    rw [hcode, if_pos rfl, if_pos rfl, byteLength_concat_low rfl]
  · rw [if_neg hopen] at hcode ⊢
    by_cases hclose : c = ']'
    · subst hclose
      rw [hcode, if_pos rfl, if_pos rfl, byteLength_concat_low rfl]
    · rw [if_neg hclose] at hcode ⊢
      exact loop_pass (fun pos b => skipRegex_high) fun _ => hcode

theorem skipRegex_escape :
    skipRegex (done ++ '\\' :: d :: rest) bracketed (byteLength done) =
      skipRegex (done ++ '\\' :: d :: rest) bracketed (byteLength (done ++ ['\\'] ++ [d])) := by
  rw [skipRegex_eq, byteAt_here, Option.elim_some, if_pos (by decide)]
  exact loop_escape fun pos b => skipRegex_high

theorem skipRegex_slash (done rest : List Char) :
    skipRegex (done ++ '/' :: rest) false (byteLength done) =
      byteLength (done ++ '/' :: rest.takeWhile Char.isAlpha) := by
  rw [skipRegex_eq, byteAt_here, Option.elim_some, if_neg (by decide), if_neg (by decide), if_neg (by decide),
    if_neg (by decide), if_pos ⟨by decide, rfl⟩, ← byteLength_concat_low (c := '/') rfl,
    List.append_cons done _ rest, skipFlags_eq, ← List.append_cons]

theorem le_skipFlags (cs : List Char) (pos : Nat) : pos ≤ skipFlags cs pos := by
  fun_induction skipFlags cs pos with
  | case1 => exact le_rfl
  | case2 => omega
  | case3 => exact le_rfl

theorem le_skipRegex (cs : List Char) (bracketed : Bool) (pos : Nat) : pos ≤ skipRegex cs bracketed pos := by
  fun_induction skipRegex cs bracketed pos with
  | case1 => exact le_rfl
  | case2 => omega
  | case3 => exact le_rfl
  | case4 => omega
  | case5 => omega
  | case6 => exact (Nat.le_succ _).trans (le_skipFlags _ _)
  | case7 => omega

/-- By bytes a regular expression ends where it ends by characters. -/
theorem skipRegex_lands (bracketed : Bool) (rest done : List Char) :
    Lands (done ++ rest) done rest (regexLength bracketed rest)
      (skipRegex (done ++ rest) bracketed (byteLength done)) := by
  fun_induction regexLength bracketed rest generalizing done with
  | case1 =>
    rw [skipRegex_eq, byteAt_end (by simp)]
    exact lands_here _ _ _
  | case2 =>
    rw [skipRegex_eq, byteAt_here, Option.elim_some, if_neg (by decide), if_pos (by decide)]
    exact lands_here _ _ _
  | case3 bracketed c hline =>
    refine .inr ⟨rfl, ?_⟩
    by_cases hescape : c = '\\'
    · subst hescape
      rw [skipRegex_eq, byteAt_here, Option.elim_some, if_pos (by decide), byteLength_concat_low rfl]
      exact (Nat.le_succ _).trans (le_skipRegex _ _ _)
    · by_cases hslash : c = '/' ∧ !bracketed
      · obtain ⟨rfl, hbracketed⟩ := hslash
        obtain rfl : bracketed = false := by simpa using hbracketed
        rw [skipRegex_slash]
        exact le_rfl
      · rw [skipRegex_char hescape hline hslash]
        exact le_skipRegex _ _ _
  | case4 bracketed d rest ih =>
    rw [skipRegex_escape, List.append_cons done, List.append_cons _ d]
    exact (ih _).cons.cons
  | case5 bracketed d rest =>
    rw [skipRegex_eq, byteAt_here, Option.elim_some, if_neg (by decide), if_pos (by decide)]
    exact lands_here _ _ _
  | case6 bracketed c d rest hescape hline hslash =>
    obtain ⟨rfl, hbracketed⟩ := hslash
    obtain rfl : bracketed = false := by simpa using hbracketed
    rw [skipRegex_slash]
    left
    rw [List.take_succ_cons, ← List.prefix_iff_eq_take.1 (List.takeWhile_prefix Char.isAlpha)]
  | case7 bracketed c d rest hescape hline hslash ih =>
    rw [skipRegex_char hescape hline hslash, List.append_cons done c]
    exact (ih _).cons

/-! ## Comments -/

theorem sliceFrom_here (done rest : List Char) : sliceFrom (done ++ rest) (byteLength done) = .ok rest :=
  (sliceFrom_eq_ok _).2 ⟨done, rfl, rfl⟩

theorem skipLineComment_eq (done rest : List Char) :
    skipLineComment (done ++ rest) (byteLength done) =
      .ok (byteLength (done ++ rest.takeWhile (· != '\n'))) := by
  have hne : ∀ before : List Char, '\n' ∉ before → ∀ c ∈ before, (c != '\n') = true := by
    intro before hbefore c hc
    exact bne_iff_ne.2 fun h => hbefore (h ▸ hc)
  rw [skipLineComment, sliceFrom_here]
  show Except.ok _ = _
  cases hsplit : splitAtFirst ['\n'] rest with
  | none =>
    have hrest : '\n' ∉ rest := by
      intro hmem
      obtain ⟨before, after, rfl⟩ := List.append_of_mem hmem
      have hnot := not_prefix_of_splitAtFirst_eq_none hsplit before.length
      rw [List.drop_left] at hnot
      exact hnot ⟨after, rfl⟩
    have hall : (rest ++ []).takeWhile (· != '\n') = rest ++ [].takeWhile (· != '\n') :=
      List.takeWhile_append_of_pos (hne rest hrest)
    rw [List.append_nil, List.takeWhile_nil, List.append_nil] at hall
    rw [hall]
    exact congrArg _ (length_bytes _)
  | some parts =>
    obtain ⟨before, after⟩ := parts
    obtain ⟨rfl, hbefore⟩ := splitAtFirst_singleton.1 hsplit
    rw [List.takeWhile_append_of_pos (hne before hbefore), List.takeWhile_cons_of_neg (by decide),
      List.append_nil, byteLength_append]

theorem skipBlockComment_eq (done rest : List Char) :
    skipBlockComment (done ++ '/' :: '*' :: rest) (byteLength done) =
      .ok (byteLength (done ++ '/' :: ('*' :: rest).take (blockCommentLength ('*' :: rest)))) := by
  have hpos : byteLength (done ++ ['/', '*']) = byteLength done + 2 := byteLength_append done ['/', '*']
  have hslice : sliceFrom (done ++ '/' :: '*' :: rest) (byteLength done + 2) = .ok rest := by
    rw [← hpos, ← sliceFrom_here (done ++ ['/', '*']) rest, List.append_assoc]
    rfl
  rw [skipBlockComment, hslice, blockCommentLength, List.drop_one, List.tail_cons]
  show Except.ok _ = _
  cases hsplit : splitAtFirst "*/".toList rest with
  | none =>
    rw [List.take_length]
    exact congrArg _ (length_bytes _)
  | some parts =>
    obtain ⟨inside, after⟩ := parts
    have htake : ('*' :: rest).take (inside.length + 3) = '*' :: (inside ++ "*/".toList) := by
      rw [splitAtFirst_eq_some hsplit, List.take_succ_cons, ← List.append_assoc]
      exact congrArg _ (List.take_left' (by simp))
    have hlength : byteLength (done ++ '/' :: '*' :: (inside ++ "*/".toList)) =
        byteLength (done ++ ['/', '*']) + byteLength inside + 2 := by
      rw [byteLength_append, byteLength_append done]
      show _ + (1 + (1 + byteLength (inside ++ "*/".toList))) = _ + 2 + _ + 2
      rw [byteLength_append]
      show _ + (1 + (1 + (_ + 2))) = _
      omega
    rw [htake, hlength, hpos]

/-! ## The text of literals -/

theorem literalText_eq (cs : List Char) (p : Place) :
    literalText cs p = (byteAt cs p.pos).elim p fun b =>
      if b = byte '\\' then literalText cs { p with pos := p.pos + 2 }
      else if b = byte '`' then
        { p with pos := p.pos + 1, frames := p.frames.tail, last := some p.pos }
      else if b = byte '$' ∧ byteAt cs (p.pos + 1) = some (byte '{') then
        { p with pos := p.pos + 2, frames := .interpolation :: p.frames, last := some (p.pos + 1) }
      else literalText cs { p with pos := p.pos + 1 } := by
  rw [literalText]
  split
  · rename_i h
    rw [h]
    rfl
  · rename_i h
    rw [h]
    rfl

theorem literalText_high {p : Place} (pos : Nat) (b : UInt8) (hb : byteAt cs pos = some b) (hhigh : 128 ≤ b) :
    literalText cs { p with pos } = literalText cs { p with pos := pos + 1 } := by
  have hne : ∀ d : Char, d.utf8Size = 1 → b ≠ byte d := fun d hd => ne_byte_of_high hhigh hd
  rw [literalText_eq, hb, Option.elim_some, if_neg (hne _ (by decide)), if_neg (hne _ (by decide)),
    if_neg fun h => hne _ (by decide) h.1]

/-- At a character that neither escapes another nor ends the text, the text goes on after it. -/
theorem literalText_char (p : Place) (hescape : c ≠ '\\') (hclose : c ≠ '`')
    (hopen : ¬ (c = '$' ∧ rest.head? = some '{')) :
    literalText (done ++ c :: rest) { p with pos := byteLength done } =
      literalText (done ++ c :: rest) { p with pos := byteLength (done ++ [c]) } := by
  refine loop_pass (f := fun pos => literalText (done ++ c :: rest) { p with pos }) literalText_high
    fun hc => ?_
  have hnext : ¬ (firstByte c = byte '$' ∧
      byteAt (done ++ c :: rest) (byteLength done + 1) = some (byte '{')) := by
    rw [byteAt_next hc rfl, firstByte_eq_byte rfl]
    exact hopen
  rw [literalText_eq, byteAt_here, Option.elim_some, if_neg (mt (firstByte_eq_byte (by decide)).1 hescape),
    if_neg (mt (firstByte_eq_byte (by decide)).1 hclose), if_neg hnext]

theorem literalText_escape (p : Place) :
    literalText (done ++ '\\' :: d :: rest) { p with pos := byteLength done } =
      literalText (done ++ '\\' :: d :: rest) { p with pos := byteLength (done ++ ['\\'] ++ [d]) } := by
  rw [literalText_eq, byteAt_here, Option.elim_some, if_pos (by decide)]
  exact loop_escape (f := fun pos => literalText (done ++ '\\' :: d :: rest) { p with pos }) literalText_high

theorem le_literalText (cs : List Char) (p : Place) : p.pos ≤ (literalText cs p).pos := by
  fun_induction literalText cs p with
  | case1 => exact le_rfl
  | case2 p h ih => exact (Nat.le_add_right _ _).trans ih
  | case3 => exact Nat.le_succ _
  | case4 => exact Nat.le_add_right _ _
  | case5 p b h hescape hclose hopen ih => exact (Nat.le_add_right _ _).trans ih

/-- The text of a literal moves on. -/
theorem lt_literalText {p : Place} (h : p.pos < (bytes cs).length) : p.pos < (literalText cs p).pos := by
  rw [literalText_eq, show byteAt cs p.pos = _ from List.getElem?_eq_getElem h, Option.elim_some]
  split
  · exact lt_of_lt_of_le (by simp) (le_literalText _ _)
  · split
    · exact Nat.lt_succ_self _
    · split
      · exact Nat.lt_add_of_pos_right Nat.two_pos
      · exact lt_of_lt_of_le (by simp) (le_literalText _ _)

end TypedTemplate.Script.Native.Walk
