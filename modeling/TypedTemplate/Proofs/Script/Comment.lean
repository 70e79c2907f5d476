/-
What a comment tells the scan. The steps before a comment do not look into it, and the steps after it start from
progress that differs only in the characters seen: the last character that counts is the same, and the character
that closes the comment ends every word. So both scripts take the same steps, up to a brace that is opened before
the next brace or semicolon. Its frame is told by the raw text of the statement, the comment included.
-/
import TypedTemplate.Proofs.Script.ClassHead

namespace TypedTemplate.Script.Native

open Text

variable {body opening closing after tail front : List Char}

/-! ## Comments -/

/-- A comment by its delimiters and what stands between and after them. -/
inductive IsComment : (opening body closing after : List Char) → Prop
  | line {body after : List Char} (h : '\n' ∉ body) : IsComment "//".toList body ['\n'] after
  | block {body after : List Char} (h : ¬ "*/".toList <:+: body) :
    IsComment "/*".toList body "*/".toList after
  /-- A line comment in the last line. -/
  | lastLine {body : List Char} (h : '\n' ∉ body) : IsComment "//".toList body [] []
  | unclosed {body : List Char} (h : ¬ "*/".toList <:+: body) : IsComment "/*".toList body [] []

/-- A text with spaces for all but its line breaks, of the same length. -/
def blanked (body : List Char) : List Char :=
  body.flatMap fun c => if c = '\n' ∨ c = '\r' then [c] else List.replicate c.utf8Size ' '

theorem byteLength_blanked (body : List Char) : byteLength (blanked body) = byteLength body := by
  induction body with
  | nil => rfl
  | cons c body ih =>
    have hc : byteLength (if c = '\n' ∨ c = '\r' then [c] else List.replicate c.utf8Size ' ') = c.utf8Size := by
      split
      · simp
      · exact byteLength_replicate_space _
    rw [blanked, List.flatMap_cons, byteLength_append, hc, byteLength_cons, ← ih]
    rfl

theorem mem_blanked {c : Char} (h : c ∈ blanked body) : c = ' ' ∨ ((c = '\n' ∨ c = '\r') ∧ c ∈ body) := by
  obtain ⟨d, hd, hc⟩ := List.mem_flatMap.1 h
  split at hc
  · rename_i hbreak
    obtain rfl := List.mem_singleton.1 hc
    exact .inr ⟨hbreak, hd⟩
  · exact .inl (List.eq_of_mem_replicate hc)

/-- A word that is not white space does not stand in a text without its characters. -/
theorem not_infix_blanked {word : List Char} {c : Char} (hword : c ∈ word) (hc : c ≠ ' ' ∧ c ≠ '\n' ∧ c ≠ '\r') :
    ¬ word <:+: blanked body := by
  intro h
  rcases mem_blanked (h.subset hword) with hspace | ⟨hbreak | hbreak, -⟩
  · exact hc.1 hspace
  · exact hc.2.1 hbreak
  · exact hc.2.2 hbreak

theorem all_inStatement_blanked (body : List Char) : (blanked body).all inStatement = true := by
  refine List.all_eq_true.2 fun c hc => ?_
  rcases mem_blanked hc with rfl | ⟨rfl | rfl, -⟩ <;> rfl

theorem IsComment.blanked (h : IsComment opening body closing after) :
    IsComment opening (blanked body) closing after := by
  have hline (hbody : '\n' ∉ body) : '\n' ∉ Native.blanked body := by
    intro hmem
    rcases mem_blanked hmem with hspace | ⟨-, hmem⟩
    · exact absurd hspace (by decide)
    · exact hbody hmem
  have hblock : ¬ "*/".toList <:+: Native.blanked body :=
    not_infix_blanked (c := '*') (by decide) (by decide)
  cases h with
  | line hbody => exact .line (hline hbody)
  | block hbody => exact .block hblock
  | lastLine hbody => exact .lastLine (hline hbody)
  | unclosed hbody => exact .unclosed hblock

/-- A block comment ends where its end stands for the first time. -/
theorem splitAtFirst_comment (h : ¬ "*/".toList <:+: body) (after : List Char) :
    splitAtFirst "*/".toList (body ++ ("*/".toList ++ after)) = some (body, after) := by
  refine splitAtFirst_eq_some_iff.2 ⟨rfl, fun n hn hword => ?_⟩
  have hlength : "*/".toList.length = 2 := by decide
  by_cases hle : n + 2 ≤ body.length
  · refine h (List.IsPrefix.isInfix ?_ |>.trans (List.drop_suffix n body).isInfix)
    exact (prefix_drop_append_iff (by omega) _).1 hword
  · -- the last character of the comment would be followed by the slash
    obtain hlast : body.length = n + 1 := by omega
    have hget := getElem?_of_prefix_drop (j := 1) hword (by decide)
    rw [← hlast, List.getElem?_append_right le_rfl, Nat.sub_self] at hget
    exact absurd hget (by simp)

section Reads

variable {p : Progress}

theorem codeLexeme_line (hbody : '\n' ∉ body) (hafter : ∀ c ∈ after.head?, c = '\n') (regex : Bool) :
    codeLexeme regex '/' ('/' :: body ++ after) = .run ('/' :: body).length false := by
  have htake : ('/' :: body ++ after).takeWhile (· != '\n') = '/' :: body := by
    have hall : ∀ c ∈ '/' :: body, (c != '\n') = true := by
      rintro c (_ | ⟨_, hc⟩)
      · rfl
      · exact bne_iff_ne.2 fun heq => hbody (heq ▸ hc)
    rw [List.takeWhile_append_of_pos hall]
    cases after with
    | nil => rw [List.takeWhile_nil, List.append_nil]
    | cons c after => simp [hafter c rfl]
  rw [codeLexeme, if_neg (by decide), if_neg (by decide), if_pos ⟨rfl, rfl⟩, htake]

theorem codeLexeme_block (regex : Bool) (cs : List Char) :
    codeLexeme regex '/' ('*' :: cs) = .run (blockCommentLength ('*' :: cs)) false := by
  rw [codeLexeme, if_neg (by decide), if_neg (by decide), if_neg (by simp), if_pos ⟨rfl, rfl⟩]

theorem Progress.pass_pass (p : Progress) (cs ds : List Char) :
    (p.pass cs false).pass ds false = p.pass (cs ++ ds) false := by
  simp [Progress.pass, Nat.add_assoc]

/-- The scan passes over a comment, and what it holds does not count. -/
theorem IsComment.reads {opening closing : List Char} (h : IsComment opening body closing after)
    (hcode : p.InCode) :
    Reads after p (opening ++ (body ++ closing)) [] (p.pass (opening ++ (body ++ closing)) false) := by
  cases h with
  | line hbody =>
    have hslashes : Reads (['\n'] ++ after) p ('/' :: '/' :: body) [] (p.pass ('/' :: '/' :: body) false) :=
      .run (by rw [Progress.lexeme_of_inCode hcode]; exact codeLexeme_line hbody (by simp) _)
    have hfeed : Reads after (p.pass ('/' :: '/' :: body) false) ['\n'] [] _ :=
      .run ((Progress.lexeme_of_inCode hcode _ _).trans
        (codeLexeme_of_not_sign (by decide) (atOpenTag_of_ne (by decide) _) _))
    have hread := hslashes.append hfeed
    rwa [show (!isIdle '\n') = false from rfl, p.pass_pass] at hread
  | block hbody =>
    have hlength : blockCommentLength ('*' :: (body ++ "*/".toList) ++ after) =
        ('*' :: (body ++ "*/".toList)).length := by
      have hsplit := splitAtFirst_comment hbody after
      rw [← List.append_assoc] at hsplit
      rw [blockCommentLength_of_some ('*' :: (body ++ "*/".toList) ++ after) hsplit]
      simp
    show Reads after p ('/' :: '*' :: (body ++ "*/".toList)) [] _
    refine .run ?_
    rw [Progress.lexeme_of_inCode hcode, ← hlength]
    exact codeLexeme_block _ _
  | lastLine hbody =>
    rw [List.append_nil]
    refine .run ?_
    rw [Progress.lexeme_of_inCode hcode]
    exact codeLexeme_line hbody (by simp) _
  | unclosed hbody =>
    rw [List.append_nil]
    have hlength : blockCommentLength ('*' :: body ++ []) = ('*' :: body).length := by
      have hnone : splitAtFirst "*/".toList body = none := by
        refine Option.not_isSome_iff_eq_none.1 fun hsome => hbody (occursIn_iff.1 hsome)
      rw [List.append_nil, blockCommentLength_of_none ('*' :: body) hnone]
    show Reads [] p ('/' :: '*' :: body) [] _
    refine .run ?_
    rw [Progress.lexeme_of_inCode hcode, ← hlength]
    exact codeLexeme_block _ _

end Reads

/-! ## Progress that differs in what was seen -/

/-- Two places that were reached over texts with different parts, `x` and `x'`, before a character `y` that ends
every word. -/
structure Alike (y : Char) (x x' : List Char) (p q : Progress) : Prop where
  endsWord : (y.isAlphanum || y == '_' || y == '$') = false
  pos : p.pos = q.pos
  frames : p.frames = q.frames
  seen : ∃ t, p.seen = t ++ y :: x ∧ q.seen = t ++ y :: x'
  last : p.last = q.last ∨ ∃ t, p.last = t ++ y :: x ∧ q.last = t ++ y :: x'

/-- What is dropped before a character is what stands before it. -/
theorem exists_token {cs rest : List Char} {x : Char} {n : Nat} (h : cs.drop n = tail ++ x :: rest) :
    ∃ token, cs = token ++ (tail ++ x :: rest) ∧ n = token.length := by
  refine ⟨cs.take n, by rw [← h, List.take_append_drop], (List.length_take_of_le ?_).symm⟩
  by_contra hlt
  rw [List.drop_eq_nil_of_le (by omega)] at h
  simp at h

namespace Alike

variable {y : Char} {x x' : List Char} {p q : Progress}

variable (h : Alike y x x' p q)
include h

theorem pass (cs : List Char) (counts : Bool) : Alike y x x' (p.pass cs counts) (q.pass cs counts) := by
  obtain ⟨t, hp, hq⟩ := h.seen
  have hseen : ∃ t, cs.reverse ++ p.seen = t ++ y :: x ∧ cs.reverse ++ q.seen = t ++ y :: x' :=
    ⟨cs.reverse ++ t, by rw [hp, List.append_assoc], by rw [hq, List.append_assoc]⟩
  refine ⟨h.endsWord, congrArg (· + byteLength cs) h.pos, h.frames, hseen, ?_⟩
  cases counts with
  | true => exact .inr hseen
  | false => exact h.last

theorem push (f : Frame) : Alike y x x' (p.push f) (q.push f) :=
  ⟨h.endsWord, h.pos, congrArg (f :: ·) h.frames, h.seen, h.last⟩

theorem popIf (kinds : List Frame) : Alike y x x' (p.popIf kinds) (q.popIf kinds) := by
  rw [p.popIf_eq_with, q.popIf_eq_with, h.frames]
  exact ⟨h.endsWord, h.pos, rfl, h.seen, h.last⟩

theorem inCode_iff : p.InCode ↔ q.InCode := by
  rw [Progress.InCode, Progress.InCode, h.frames]

/-- What was read last is the same, as no word goes on over the character `y`. -/
theorem lookBack : p.regexAllowed = q.regexAllowed ∧ p.placement = q.placement := by
  have hafter : p.afterKeyword = q.afterKeyword := by
    unfold Progress.afterKeyword Progress.lastWord
    rcases h.last with hlast | ⟨t, hp, hq⟩
    · rw [hlast]
    · rw [hp, hq, takeWhile_append_cons h.endsWord, takeWhile_append_cons h.endsWord]
  have hhead : p.last.head? = q.last.head? := by
    rcases h.last with hlast | ⟨t, hp, hq⟩
    · rw [hlast]
    · rw [hp, hq]
      cases t <;> rfl
  have hlast (cs : String) : p.lastIn cs = q.lastIn cs := by
    rw [Progress.lastIn, Progress.lastIn, hhead]
  have hempty : p.last.isEmpty = q.last.isEmpty := by
    rw [Bool.eq_iff_iff, List.isEmpty_iff, List.isEmpty_iff, ← List.head?_eq_none_iff,
      ← List.head?_eq_none_iff, hhead]
  constructor
  · rw [Progress.regexAllowed, Progress.regexAllowed, hempty, hlast, hafter]
  · rw [Progress.placement, Progress.placement, h.frames, hlast, hafter]

theorem lexeme_eq (c : Char) (cs : List Char) : p.lexeme c cs = q.lexeme c cs := by
  simp only [Progress.lexeme, h.inCode_iff, h.lookBack.1]

theorem template_eq (cs : List Char) (tag content : Nat) : p.template cs tag content = q.template cs tag content := by
  rw [Progress.template, Progress.template, h.pos, h.lookBack.2]

/-- Both take the same step, unless it opens a brace for which the text seen tells different frames. -/
theorem step_alike {c : Char} {cs : List Char} (hbrace : p.lexeme c cs = .brace → p.braceFrame = q.braceFrame) :
    (∃ e, step p c cs = .error e ∧ step q c cs = .error e) ∨
      ∃ s s', step p c cs = .ok s ∧ step q c cs = .ok s' ∧ s.taken = s'.taken ∧ s.found = s'.found ∧
        Alike y x x' s.progress s'.progress := by
  rw [step_eq, step_eq, ← h.lexeme_eq]
  cases hlexeme : p.lexeme c cs with
  | run more counts => exact .inr ⟨_, _, rfl, rfl, rfl, rfl, h.pass _ _⟩
  | opening frame more => exact .inr ⟨_, _, rfl, rfl, rfl, rfl, (h.push frame).pass _ _⟩
  | brace =>
    refine .inr ⟨_, _, rfl, rfl, rfl, rfl, ?_⟩
    rw [hbrace hlexeme]
    exact (h.push _).pass _ _
  | closing kinds => exact .inr ⟨_, _, rfl, rfl, rfl, rfl, (h.popIf kinds).pass _ _⟩
  | element extent =>
    cases extent with
    | none =>
      refine .inl ⟨_, rfl, ?_⟩
      rw [h.pos]
      rfl
    | some extent =>
      refine .inr ⟨_, _, rfl, rfl, rfl, ?_, h.pass _ _⟩
      exact congrArg some (h.template_eq _ _ _)

/-- Both find the same, unless the scan meets such a brace. -/
theorem scanFrom_alike (cs : List Char) :
    scanFrom p cs = scanFrom q cs ∨
      ∃ tail rest us r, cs = tail ++ '{' :: rest ∧ Reads ('{' :: rest) p tail us r ∧ r.InCode ∧
        isClassHead (statement (tail.reverse ++ p.seen)) ≠ isClassHead (statement (tail.reverse ++ q.seen)) := by
  fun_induction scanFrom p cs generalizing q with
  | case1 p => exact .inl (by rw [scanFrom])
  | case2 p c cs e hstep =>
    have hbrace : p.lexeme c cs = .brace → p.braceFrame = q.braceFrame := by
      intro hlexeme
      rw [step_eq, hlexeme] at hstep
      cases hstep
    obtain ⟨e', hp, hq⟩ | ⟨s, s', hp, -⟩ := h.step_alike hbrace
    · cases hstep.symm.trans hp
      rw [scanFrom, hq]
      exact .inl rfl
    · cases hstep.symm.trans hp
  | case3 p c cs s hstep ih =>
    by_cases hbrace : p.lexeme c cs = .brace → p.braceFrame = q.braceFrame
    · obtain ⟨e, hp, -⟩ | ⟨s, s', hp, hq, htaken, hfound, halike⟩ := h.step_alike hbrace
      · cases hstep.symm.trans hp
      cases hstep.symm.trans hp
      obtain heq | ⟨tail, rest, us, r, hcs, hreads, hcode, hdiffer⟩ := ih halike
      · refine .inl ?_
        rw [scanFrom, hq]
        simp only [← htaken, ← hfound, heq]
      · -- the brace stands after what this step takes
        obtain ⟨token, rfl, hlength⟩ := exists_token hcs
        have hseen := (Lexeme.step_eq_ok (step_eq p c _ ▸ hp)).2.1
        have hseen' := (Lexeme.step_eq_ok (step_eq q c _ ▸ hq)).2.1
        rw [hlength, List.take_left] at hseen
        rw [← htaken, hlength, List.take_left] at hseen'
        have hreverse : (c :: (token ++ tail)).reverse = tail.reverse ++ (c :: token).reverse := by
          rw [← List.cons_append, List.reverse_append]
        refine .inr ⟨c :: (token ++ tail), rest, s.found.toList ++ us, r, by simp, .step hp hlength hreads,
          hcode, ?_⟩
        rw [hreverse, List.append_assoc, List.append_assoc, ← hseen, ← hseen']
        exact hdiffer
    · push Not at hbrace
      obtain ⟨hlexeme, hdiffer⟩ := hbrace
      obtain ⟨hcode, rfl⟩ := Progress.lexeme_eq_brace hlexeme
      refine .inr ⟨[], cs, [], p, rfl, .nil p, hcode, fun heq => hdiffer ?_⟩
      rw [p.braceFrame_eq, q.braceFrame_eq]
      exact congrArg (if · = true then Frame.classBody else Frame.block) heq

end Alike

/-! ## Braces after a comment -/

/-- A comment tells a brace nothing, if it holds no brace or semicolon and not the word `class`. -/
theorem IsComment.opensClass_eq {body' : List Char} (h : IsComment opening body closing after)
    (hstop : body.all inStatement = true) (hstop' : body'.all inStatement = true) (hbody : ¬ "class".toList <:+: body)
    (hbody' : ¬ "class".toList <:+: body') (htail : tail.all inStatement = true) (hclosing : closing ≠ []) :
    opensClass (front ++ (opening ++ (body' ++ (closing ++ tail)))) =
      opensClass (front ++ (opening ++ (body ++ (closing ++ tail)))) := by
  have hdelimiters : ∃ x y more, opening = ['/', x] ∧ closing = y :: more ∧ x ∉ "class".toList ∧
      y ∉ "class".toList ∧ opening.all inStatement = true ∧ closing.all inStatement = true := by
    cases h with
    | line => exact ⟨'/', '\n', [], rfl, rfl, by decide, by decide, by decide, by decide⟩
    | block => exact ⟨'*', '*', ['/'], rfl, rfl, by decide, by decide, by decide, by decide⟩
    | lastLine => exact absurd rfl hclosing
    | unclosed => exact absurd rfl hclosing
  obtain ⟨x, y, more, rfl, rfl, hx, hy, hopening, hclose⟩ := hdelimiters
  have hall {body : List Char} (hstop : body.all inStatement = true) :
      (['/', x] ++ (body ++ (y :: more ++ tail))).all inStatement = true := by
    simp only [List.all_append, hopening, hclose, hstop, htail, Bool.and_self]
  rw [opensClass_append (hall hstop), opensClass_append (hall hstop')]
  exact isClassHead_comment hx hy hbody' hbody _ _

/-- What a comment has to hold for a brace to be told apart by it, and what has to stand between. -/
theorem IsComment.of_opensClass_ne (h : IsComment opening body closing after) (hclosing : closing ≠ [])
    (hopens : opensClass (front ++ (opening ++ (Native.blanked body ++ (closing ++ tail)))) ≠
      opensClass (front ++ (opening ++ (body ++ (closing ++ tail))))) :
    tail.all inStatement = true ∧ (body.all inStatement = false ∨ "class".toList <:+: body) := by
  have hall : tail.all inStatement = true := by
    by_contra hstop
    rw [Bool.not_eq_true] at hstop
    refine hopens ?_
    simp only [← List.append_assoc, opensClass_append_of_not_all hstop]
  refine ⟨hall, ?_⟩
  by_contra hnone
  rw [not_or, Bool.not_eq_false] at hnone
  refine hopens (h.opensClass_eq hnone.1 (all_inStatement_blanked body) hnone.2 ?_ hall hclosing)
  exact not_infix_blanked (c := 'c') (by decide) (by decide)

/-! ## Blank comments -/

/-- After a comment, two scripts that differ in it are alike. -/
theorem IsComment.alike (h : IsComment opening body closing after) (hclosing : closing ≠ []) {body' : List Char}
    (hlength : byteLength body' = byteLength body) (p : Progress) :
    ∃ y x x',
      Alike y x x' (p.pass (opening ++ (body ++ closing)) false) (p.pass (opening ++ (body' ++ closing)) false) := by
  have hend : ∃ more y, closing = more ++ [y] ∧ (y.isAlphanum || y == '_' || y == '$') = false := by
    cases h with
    | line => exact ⟨[], '\n', rfl, by decide⟩
    | block => exact ⟨['*'], '/', rfl, by decide⟩
    | lastLine => exact absurd rfl hclosing
    | unclosed => exact absurd rfl hclosing
  obtain ⟨more, y, rfl, hy⟩ := hend
  refine ⟨y, (opening ++ (body ++ more)).reverse ++ p.seen, (opening ++ (body' ++ more)).reverse ++ p.seen, hy,
    ?_, rfl, ⟨[], ?_, ?_⟩, .inl rfl⟩
  · simp only [Progress.pass, byteLength_append, hlength]
  · simp [Progress.pass]
  · simp [Progress.pass]

/-- A script is read up to the end of a comment. -/
theorem reads_comment {ts : List NativeTemplate} {p : Progress}
    (hfront : Reads (opening ++ (body ++ (closing ++ after))) {} front ts p) (hcode : p.InCode)
    (hcomment : IsComment opening body closing after) :
    Reads after {} (front ++ (opening ++ (body ++ closing))) ts (p.pass (opening ++ (body ++ closing)) false) := by
  have hread := hfront
  rw [← List.append_assoc body, ← List.append_assoc opening] at hread
  have hall := hread.append (hcomment.reads hcode)
  rwa [List.append_nil] at hall

/-- Replacing what a comment holds by spaces leaves what the scan of the script finds unchanged, or its error,
unless the scan meets a brace after the comment, with no brace or semicolon between, that is taken for that of a
class with one of the two texts only. For that the comment has to hold a brace, a semicolon or the word `class`. -/
theorem comment_matters_to_class_heads_only {front opening body closing after : List Char}
    {ts : List NativeTemplate} {p : Progress}
    (hfront : Reads (opening ++ (body ++ (closing ++ after))) {} front ts p) (hcode : p.InCode)
    (hcomment : IsComment opening body closing after) :
    scan (String.ofList (front ++ (opening ++ (blanked body ++ (closing ++ after))))) =
        scan (String.ofList (front ++ (opening ++ (body ++ (closing ++ after))))) ∨
      ∃ tail rest us q, after = tail ++ '{' :: rest ∧ tail.all inStatement = true ∧
        Reads ('{' :: rest) {} (front ++ (opening ++ (body ++ (closing ++ tail)))) us q ∧ q.InCode ∧
        opensClass (front ++ (opening ++ (blanked body ++ (closing ++ tail)))) ≠
          opensClass (front ++ (opening ++ (body ++ (closing ++ tail)))) ∧
        (body.all inStatement = false ∨ "class".toList <:+: body) := by
  have hfront' : Reads (opening ++ (blanked body ++ (closing ++ after))) {} front ts p := by
    cases hcomment <;> exact hfront.append_slash _
  have hread := reads_comment hfront hcode hcomment
  have hread' := reads_comment hfront' hcode hcomment.blanked
  have hscan := hread.scanFrom_eq
  have hscan' := hread'.scanFrom_eq
  simp only [List.append_assoc] at hscan hscan'
  rw [scan, scan, String.toList_ofList, String.toList_ofList, hscan, hscan']
  by_cases hclosing : closing = []
  · have hafter : after = [] := by
      cases hcomment with
      | line => cases hclosing
      | block => cases hclosing
      | lastLine => rfl
      | unclosed => rfl
    rw [hafter, scanFrom, scanFrom]
    exact .inl rfl
  obtain ⟨y, x, x', halike⟩ := hcomment.alike hclosing (byteLength_blanked body) p
  obtain heq | ⟨tail, rest, us, q, rfl, htail, hq, hdiffer⟩ := halike.scanFrom_alike after
  · rw [heq]
    exact .inl rfl
  · have hseen := hread.seen_eq
    have hseen' := hread'.seen_eq
    rw [List.append_nil] at hseen hseen'
    have hopens : opensClass (front ++ (opening ++ (blanked body ++ (closing ++ tail)))) ≠
        opensClass (front ++ (opening ++ (body ++ (closing ++ tail)))) := by
      rw [hseen, hseen', ← List.reverse_append, ← List.reverse_append] at hdiffer
      simpa only [opensClass, List.append_assoc] using hdiffer.symm
    obtain ⟨hall, hholds⟩ := hcomment.of_opensClass_ne hclosing hopens
    refine .inr ⟨tail, rest, ts ++ us, q, rfl, hall, ?_, hq, hopens, hholds⟩
    have hbrace := hread.append htail
    simpa only [List.append_assoc] using hbrace

theorem comment_matters_to_class_heads_only_quote :
    scan "x=/*           */<template>b</template>" = scan "x=/*'<template>*/<template>b</template>" := by
  have hfront : Reads "/*'<template>*/<template>b</template>".toList {} "x=".toList [] _ :=
    .cons rfl (.cons rfl (.nil _))
  have hcomment : IsComment "/*".toList "'<template>".toList "*/".toList "<template>b</template>".toList :=
    .block (by decide)
  obtain hscan | ⟨tail, rest, us, q, -, -, -, -, -, hstop | hclass⟩ :=
    comment_matters_to_class_heads_only hfront (by decide) hcomment
  · have hblank : blanked "'<template>".toList = "           ".toList := by decide
    rwa [hblank] at hscan
  · exact absurd hstop (by decide)
  · exact absurd hclass (by decide)

/-- The words of a comment before a function are taken for the head of a class, and blanks are not. -/
theorem comment_opens_class :
    scan "// this class extends Foo\nfunction f() \x7b\n  return <template>x</template>;\n\x7d\n" =
        .ok [⟨⟨50, 72⟩, ⟨60, 61⟩, .classMember⟩] ∧
      scan "//                       \nfunction f() \x7b\n  return <template>x</template>;\n\x7d\n" =
        .ok [⟨⟨50, 72⟩, ⟨60, 61⟩, .expression⟩] := by
  decide +kernel

end TypedTemplate.Script.Native
