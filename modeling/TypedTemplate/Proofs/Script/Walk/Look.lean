/-
Looking around from a place. What was read last is told by the last byte of a character, which is ASCII exactly
if the character is; a word is followed back over bytes that are all ASCII, so it starts between characters; and
the text since the last brace or semicolon starts after an ASCII character.
-/
import TypedTemplate.Proofs.Script.Lexeme
import TypedTemplate.Proofs.Script.Walk.Skip

namespace TypedTemplate.Script.Native.Walk

open Text

variable {cs : List Char} {p : Progress}

theorem fetch_of_byteAt {n : Nat} {b : UInt8} (h : byteAt cs n = some b) : fetch cs n = .ok b := by
  rw [fetch, h]
  rfl

theorem takeBytes_here (front rest : List Char) : takeBytes (byteLength front) (front ++ rest) = some front :=
  takeBytes_eq_some_iff.2 ⟨rest, rfl, rfl⟩

theorem sliceBetween_here (front mid rest : List Char) :
    sliceBetween (front ++ mid ++ rest) (byteLength front) (byteLength (front ++ mid)) = .ok mid := by
  have hlength : byteLength (front ++ mid) - byteLength front = byteLength mid := by
    rw [byteLength_append, Nat.add_sub_cancel_left]
  rw [sliceBetween, if_neg (by simp), List.append_assoc, sliceFrom_here]
  show ((takeBytes (byteLength (front ++ mid) - byteLength front) (mid ++ rest)).map Except.ok).getD _ = _
  rw [hlength, takeBytes_here]
  rfl

/-! ## Back over what was read -/

theorem byteLength_reverse (cs : List Char) : byteLength cs.reverse = byteLength cs := by
  induction cs with
  | nil => rfl
  | cons c cs ih => rw [List.reverse_cons, byteLength_concat, ih, byteLength_cons, Nat.add_comm]

theorem byteLength_reverse_pos {back : List Char} (h : back ≠ []) : 0 < byteLength back.reverse := by
  obtain ⟨c, back, rfl⟩ := List.exists_cons_of_ne_nil h
  rw [byteLength_reverse]
  exact Nat.add_pos_left c.utf8Size_pos _

/-- The last byte of a character tells which ASCII character it is. -/
theorem fetch_last {p : Char → Bool} (hp : ∀ c, p c = true → c.utf8Size = 1) (c : Char)
    (back rest : List Char) :
    ∃ b, fetch ((c :: back).reverse ++ rest) (byteLength (c :: back).reverse - 1) = .ok b ∧
      ascii p b = p c := by
  rw [List.reverse_cons, ← List.append_cons, byteLength_concat]
  by_cases hc : c.utf8Size = 1
  · refine ⟨firstByte c, fetch_of_byteAt ?_, ascii_firstByte hp c⟩
    rw [hc, Nat.add_sub_cancel]
    exact byteAt_here _ c rest
  · have hpos := c.utf8Size_pos
    obtain ⟨b, hb, hhigh⟩ := getElem?_bytes_of_high hc back.reverse rest (Nat.sub_lt hpos Nat.one_pos)
    refine ⟨b, fetch_of_byteAt ?_, ?_⟩
    · rw [Nat.add_sub_assoc hpos]
      exact hb
    · rw [ascii_of_le hhigh]
      exact (Bool.eq_false_of_not_eq_true fun h => hc (hp c h)).symm

theorem utf8Size_of_isWordChar {c : Char} (h : isWordChar c = true) : c.utf8Size = 1 := by
  simp only [isWordChar, Bool.or_eq_true, beq_iff_eq] at h
  rcases h with (h | rfl) | rfl
  · exact utf8Size_of_isAlphanum h
  · rfl
  · rfl

theorem wordStart_eq (back rest : List Char) :
    wordStart (back.reverse ++ rest) (byteLength back.reverse) =
      .ok (byteLength (back.dropWhile isWordChar).reverse) := by
  induction back generalizing rest with
  | nil => rfl
  | cons c back ih =>
    obtain ⟨b, hb, hword⟩ := fetch_last (fun _ => utf8Size_of_isWordChar) c back rest
    have hlength : byteLength (c :: back).reverse = byteLength (c :: back).reverse - 1 + 1 :=
      (Nat.sub_add_cancel (byteLength_reverse_pos (List.cons_ne_nil c back))).symm
    rw [hlength, wordStart, hb]
    show (if ascii isWordChar b = true then wordStart _ _ else Except.ok _) = _
    rw [hword, ← hlength]
    -- a character of a word is one byte, so the byte before it ends the character before
    by_cases hc : isWordChar c = true
    · rw [if_pos hc, List.dropWhile_cons_of_pos hc, ← ih (c :: rest), List.reverse_cons, ← List.append_cons,
        byteLength_concat_low (utf8Size_of_isWordChar hc), Nat.add_sub_cancel]
    · rw [if_neg hc, List.dropWhile_cons_of_neg hc]

theorem wordEndingAt_eq {back : List Char} (h : back ≠ []) (rest : List Char) :
    wordEndingAt (back.reverse ++ rest) (byteLength back.reverse - 1) =
      .ok (back.takeWhile isWordChar).reverse := by
  have hback : back.reverse = (back.dropWhile isWordChar).reverse ++ (back.takeWhile isWordChar).reverse := by
    rw [← List.reverse_append, List.takeWhile_append_dropWhile]
  have hlength : byteLength back.reverse - byteLength (back.dropWhile isWordChar).reverse =
      byteLength (back.takeWhile isWordChar).reverse := by
    rw [hback, byteLength_append, Nat.add_sub_cancel_left]
  have hdrop : dropBytes (byteLength (back.dropWhile isWordChar).reverse) (back.reverse ++ rest) =
      some ((back.takeWhile isWordChar).reverse ++ rest) :=
    dropBytes_eq_some_iff.2 ⟨_, by rw [hback, List.append_assoc], rfl⟩
  rw [wordEndingAt, Nat.sub_add_cancel (byteLength_reverse_pos h), wordStart_eq]
  show Except.ok _ = _
  rw [hdrop, Option.bind_some, hlength, takeBytes_here]
  rfl

/-- The position of the last byte that counts and the characters up to it, with the last one first. -/
def Recalls (cs back : List Char) (last : Option Nat) : Prop :=
  back = [] ∧ last = none ∨
    back ≠ [] ∧ back.reverse <+: cs ∧ last = some (byteLength back.reverse - 1)

theorem afterAny_eq (h : p.last ≠ []) (hcs : p.last.reverse <+: cs) {these : String}
    (hthese : these.toList.all (·.utf8Size == 1) = true) :
    afterAny cs these (byteLength p.last.reverse - 1) = .ok (p.lastIn these || p.afterKeyword) := by
  obtain ⟨rest, rfl⟩ := hcs
  obtain ⟨c, back, hback⟩ := List.exists_cons_of_ne_nil h
  have hlow : ∀ c, these.toList.contains c = true → c.utf8Size = 1 := by
    intro c hc
    exact beq_iff_eq.1 (List.all_eq_true.1 hthese c (List.contains_iff_mem.1 hc))
  have hkeyword :
      afterKeyword (p.last.reverse ++ rest) (byteLength p.last.reverse - 1) = .ok p.afterKeyword := by
    rw [afterKeyword, wordEndingAt_eq h]
    rfl
  obtain ⟨b, hb, hascii⟩ := fetch_last hlow c back rest
  rw [← hback] at hb
  have hlast : p.lastIn these = these.toList.contains c := by rw [Progress.lastIn, hback]; rfl
  rw [afterAny, hb, hlast, ← hascii]
  show (if ascii these.toList.contains b = true then Except.ok true else _) = _
  by_cases hthis : ascii these.toList.contains b = true
  · rw [if_pos hthis, hthis, Bool.true_or]
  · rw [if_neg hthis, hkeyword, Bool.eq_false_of_not_eq_true hthis, Bool.false_or]

theorem regexAllowed_eq {q : Place} (h : Recalls cs p.last q.last) : regexAllowed cs q = .ok p.regexAllowed := by
  rcases h with ⟨hback, hlast⟩ | ⟨hback, hcs, hlast⟩
  · rw [regexAllowed, hlast, Progress.regexAllowed, hback]
    rfl
  · have hempty : p.last.isEmpty = false := List.isEmpty_eq_false_iff.2 hback
    rw [regexAllowed, hlast, Progress.regexAllowed, hempty, Bool.false_or]
    exact afterAny_eq hback hcs (by decide)

theorem placement_eq {q : Place} (h : Recalls cs p.last q.last) (hframes : q.frames = p.frames) :
    placement cs q = .ok p.placement := by
  rw [placement, Progress.placement, hframes]
  cases p.frames with
  | cons f outer => cases f <;> rfl
  | nil =>
    rcases h with ⟨hback, hlast⟩ | ⟨hback, hcs, hlast⟩
    · have hnone : (p.lastIn "=(,:?[!&|>" || p.afterKeyword) = false := by
        rw [Progress.lastIn, Progress.afterKeyword, Progress.lastWord, hback]
        decide
      rw [hlast, hnone]
      rfl
    · rw [hlast]
      show (afterAny cs _ _ >>= _) = _
      rw [afterAny_eq hback hcs (by decide)]
      cases p.lastIn "=(,:?[!&|>" || p.afterKeyword <;> rfl

/-! ## The statement before a brace -/

theorem not_inStatement (c : Char) : (!(c == ';' || c == '{' || c == '}')) = inStatement c := by
  simp only [inStatement, bne, Bool.not_or]

theorem utf8Size_of_not_inStatement {c : Char} (h : inStatement c = false) : c.utf8Size = 1 := by
  rw [← not_inStatement, Bool.not_eq_false'] at h
  simp only [Bool.or_eq_true, beq_iff_eq] at h
  rcases h with (rfl | rfl) | rfl <;> rfl

theorem statementHead_eq (done rest : List Char) :
    statementHead (done ++ rest) (byteLength done) = .ok (done.reverse.takeWhile inStatement).reverse := by
  have hfront : sliceBetween (done ++ rest) 0 (byteLength done) = .ok done := sliceBetween_here [] done rest
  have hdone : done =
      (done.reverse.dropWhile inStatement).reverse ++ (done.reverse.takeWhile inStatement).reverse := by
    rw [← List.reverse_append, List.takeWhile_append_dropWhile, List.reverse_reverse]
  rw [statementHead, hfront]
  show sliceBetween _ _ _ = _
  rw [lastIndex, funext not_inStatement]
  cases hdrop : done.reverse.dropWhile inStatement with
  | nil =>
    rw [hdrop, List.reverse_nil, List.nil_append] at hdone
    rw [← hdone]
    exact hfront
  | cons c before =>
    have hc : inStatement c = false := by
      have hhead := List.head?_dropWhile_not inStatement done.reverse
      rw [hdrop] at hhead
      exact hhead
    have hstart : byteLength before + 1 = byteLength (c :: before).reverse := by
      rw [List.reverse_cons, byteLength_concat_low (utf8Size_of_not_inStatement hc), byteLength_reverse]
    have hslice := sliceBetween_here (c :: before).reverse (done.reverse.takeWhile inStatement).reverse rest
    rw [← hdrop, ← hdone, hdrop, ← hstart] at hslice
    exact hslice

theorem braceFrame_eq {done rest : List Char} (h : p.seen = done.reverse) :
    braceFrame (done ++ rest) (byteLength done) = .ok p.braceFrame := by
  rw [braceFrame, statementHead_eq, Progress.braceFrame, h]
  rfl

end TypedTemplate.Script.Native.Walk
