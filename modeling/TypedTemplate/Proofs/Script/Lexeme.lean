/-
Steps of the scan by their lexemes. What a step takes is told by the text ahead, by whether it is that of a
template literal and by whether a regular expression can start; what it does to the progress is told by the
lexeme. So two places that agree on the former take the same steps, and a step that ends before a place where a
comment starts takes the same characters whatever stands in the comment.
-/
import TypedTemplate.Proofs.Script.Native

namespace TypedTemplate.Script.Native

open Text

variable {c : Char} {cs word front rest : List Char} {p : Progress} {s : Step}

/-! ## Lexemes -/

/-- What a step of the scan takes and does. -/
inductive Lexeme where
  /-- Characters are passed over, so many beside the first, that count or do not. -/
  | run (more : Nat) (counts : Bool)
  /-- A frame is entered. -/
  | opening (frame : Frame) (more : Nat)
  /-- A brace is opened, which may be that of a class. -/
  | brace
  /-- The innermost frame is left if it is one of these. -/
  | closing (kinds : List Frame)
  /-- An element, by the lengths of its opening tag and its content if it is closed. -/
  | element (extent : Option (Nat × Nat))

/-- A lexeme in the text of a template literal. -/
def literalLexeme (c : Char) (cs : List Char) : Lexeme :=
  if c = '\\' then .run 1 false
  else if c = '`' then .closing [.literal]
  else if c = '$' ∧ cs.head? = some '{' then .opening .interpolation 1
  else .run 0 false

/-- A lexeme in code. -/
def codeLexeme (regex : Bool) (c : Char) (cs : List Char) : Lexeme :=
  if c = '\'' ∨ c = '"' then .run (stringLength c cs) true
  else if c = '`' then .opening .literal 0
  else if c = '/' ∧ cs.head? = some '/' then .run (cs.takeWhile (· != '\n')).length false
  else if c = '/' ∧ cs.head? = some '*' then .run (blockCommentLength cs) false
  else if c = '/' ∧ regex then .run (regexLength false cs) true
  else if atOpenTag (c :: cs) then .element (extent? (c :: cs))
  else if c = '{' then .brace
  else if c = '(' ∨ c = '[' then .opening .paren 0
  else if c = ')' ∨ c = ']' then .closing [.paren]
  else if c = '}' then .closing [.classBody, .block, .interpolation]
  else .run 0 (!isIdle c)

namespace Progress

/-- A place in code, not in the text of a template literal. -/
def InCode (p : Progress) : Prop := p.frames.head? ≠ some .literal

instance (p : Progress) : Decidable p.InCode := inferInstanceAs (Decidable (_ ≠ _))

def lexeme (p : Progress) (c : Char) (cs : List Char) : Lexeme :=
  if p.InCode then codeLexeme p.regexAllowed c cs else literalLexeme c cs

theorem lexeme_of_inCode {p : Progress} (h : p.InCode) (c : Char) (cs : List Char) :
    p.lexeme c cs = codeLexeme p.regexAllowed c cs := if_pos h

end Progress

/-- The step that takes a lexeme. -/
def Lexeme.step (p : Progress) (c : Char) (cs : List Char) : Lexeme → Except UnclosedTemplate Step
  | .run more counts => .ok (.take p c cs more counts)
  | .opening frame more => .ok (.take (p.push frame) c cs more true)
  | .brace => .ok (.take (p.push p.braceFrame) c cs 0 true)
  | .closing kinds => .ok (.take (p.popIf kinds) c cs 0 true)
  | .element none => .error ⟨⟨p.pos, p.pos + openTag.length⟩⟩
  | .element (some (tag, content)) =>
    .ok { Step.take p c cs (tag + content + closeTag.length - 1) true with
      found := some (p.template (c :: cs) tag content) }

/-- A step is that of its lexeme. -/
theorem step_eq (p : Progress) (c : Char) (cs : List Char) : step p c cs = (p.lexeme c cs).step p c cs := by
  by_cases hcode : p.InCode
  · have hnot : ¬ p.frames.head? = some .literal := hcode
    rw [step, if_neg hnot, Progress.lexeme, if_pos hcode, codeStep, codeLexeme]
    simp only [apply_ite (Lexeme.step p c cs)]
    cases extent? (c :: cs) <;> rfl
  · have hliteral : p.frames.head? = some .literal := not_not.1 hcode
    rw [step, if_pos hliteral, Progress.lexeme, if_neg hcode, literalStep, literalLexeme]
    simp only [apply_ite (Lexeme.step p c cs), apply_ite Except.ok]
    rfl

/-- The characters that start more than themselves or open or close a frame. -/
def signs : List Char := ['\'', '"', '`', '/', '{', '}', '(', ')', '[', ']']

/-- Any other character is passed over by itself, but for an opening tag. -/
theorem codeLexeme_of_not_sign (hc : c ∉ signs) (hopen : atOpenTag (c :: cs) = false) (regex : Bool) :
    codeLexeme regex c cs = .run 0 (!isIdle c) := by
  simp only [signs, List.mem_cons, List.not_mem_nil, or_false, not_or] at hc
  simp [codeLexeme, hc, hopen]

theorem atOpenTag_of_ne (hc : c ≠ '<') (cs : List Char) : atOpenTag (c :: cs) = false :=
  Bool.eq_false_of_not_eq_true fun hopen => hc (eq_of_atOpenTag hopen)

/-- A brace is opened by the character, in code. -/
theorem Progress.lexeme_eq_brace (h : p.lexeme c cs = .brace) : p.InCode ∧ c = '{' := by
  unfold Progress.lexeme at h
  split at h
  · rename_i hcode
    refine ⟨hcode, ?_⟩
    by_contra hc
    simp only [codeLexeme, if_neg hc] at h
    repeat (first | cases h | split at h)
  · simp only [literalLexeme] at h
    repeat (first | cases h | split at h)

/-- How many characters beside the first a lexeme takes. -/
def Lexeme.width : Lexeme → Nat
  | .run more _ => more
  | .opening _ more => more
  | .brace => 0
  | .closing _ => 0
  | .element none => 0
  | .element (some (tag, content)) => tag + content + closeTag.length - 1

/-- The frame that a lexeme enters. -/
def Lexeme.entered (p : Progress) : Lexeme → Option Frame
  | .opening frame _ => some frame
  | .brace => some p.braceFrame
  | _ => none

theorem Progress.popIf_eq_with (p : Progress) (kinds : List Frame) :
    p.popIf kinds = { p with
      frames := if p.frames.head?.any kinds.contains then p.frames.tail else p.frames } := by
  obtain ⟨pos, seen, last, frames⟩ := p
  cases frames with
  | nil => rfl
  | cons f outer => exact (apply_ite (Progress.mk pos seen last) (kinds.contains f = true) outer (f :: outer)).symm

/-- A step takes as many characters as its lexeme has, and they are seen then. -/
theorem Lexeme.step_eq_ok {lexeme : Lexeme} (h : lexeme.step p c cs = .ok s) :
    s.taken = lexeme.width ∧ s.progress.seen = (c :: cs.take s.taken).reverse ++ p.seen ∧
      s.progress.pos = p.pos + byteLength (c :: cs.take s.taken) := by
  cases lexeme with
  | run more counts => cases h; exact ⟨rfl, rfl, rfl⟩
  | opening frame more => cases h; exact ⟨rfl, rfl, rfl⟩
  | brace => cases h; exact ⟨rfl, rfl, rfl⟩
  | closing kinds =>
    cases h
    rw [p.popIf_eq_with]
    exact ⟨rfl, rfl, rfl⟩
  | element extent =>
    cases extent with
    | none => cases h
    | some extent => cases h; exact ⟨rfl, rfl, rfl⟩

/-! ## Stretches of a text -/

/-- The scan reads a stretch of a text before `rest`: it comes from one progress to another, ends its last step
where the stretch ends, and finds these templates. -/
inductive Reads (rest : List Char) : Progress → List Char → List NativeTemplate → Progress → Prop
  | nil (p : Progress) : Reads rest p [] [] p
  | step {p q : Progress} {s : Step} {c : Char} {token more : List Char} {ts : List NativeTemplate}
    (hstep : step p c (token ++ (more ++ rest)) = .ok s) (htaken : s.taken = token.length)
    (hmore : Reads rest s.progress more ts q) : Reads rest p (c :: (token ++ more)) (s.found.toList ++ ts) q

namespace Reads

variable {back token : List Char} {q r : Progress} {ts us : List NativeTemplate}

theorem append (hfront : Reads (back ++ rest) p front ts q) (hback : Reads rest q back us r) :
    Reads rest p (front ++ back) (ts ++ us) r := by
  induction hfront with
  | nil p => exact hback
  | step hstep htaken hmore ih =>
    rw [List.cons_append, List.append_assoc, List.append_assoc]
    refine .step ?_ htaken (ih hback)
    rw [List.append_assoc]
    exact hstep

/-- What is found in a text is what is found in the stretch and after it. -/
theorem scanFrom_eq (h : Reads rest p front ts q) :
    scanFrom p (front ++ rest) = (scanFrom q rest).map (ts ++ ·) := by
  induction h with
  | nil p => cases hrest : scanFrom p rest <;> simp [hrest, Except.map]
  | @step p q s c token more ts hstep htaken hmore ih =>
    rw [List.cons_append, List.append_assoc, scanFrom, hstep]
    simp only [htaken, List.drop_left, ih]
    cases scanFrom q rest with
    | error e => rfl
    | ok vs => simp [Except.map, bind, Except.bind, pure, Except.pure]

theorem single {s : Step} (hstep : Native.step p c (token ++ rest) = .ok s) (htaken : s.taken = token.length) :
    Reads rest p (c :: token) s.found.toList s.progress := by
  have hread : Reads rest p (c :: (token ++ [])) (s.found.toList ++ []) s.progress := .step hstep htaken (.nil _)
  rwa [List.append_nil, List.append_nil] at hread

/-- A lexeme that is passed over. -/
theorem run {counts : Bool} (hlexeme : p.lexeme c (token ++ rest) = .run token.length counts) :
    Reads rest p (c :: token) [] (p.pass (c :: token) counts) := by
  have hstep : Native.step p c (token ++ rest) = .ok (.take p c (token ++ rest) token.length counts) := by
    rw [step_eq, hlexeme]
    rfl
  have hread := single hstep rfl
  rwa [Step.take, List.take_left] at hread

/-- A lexeme that enters a frame. -/
theorem enter {f : Frame} (hentered : (p.lexeme c (token ++ rest)).entered p = some f)
    (hwidth : (p.lexeme c (token ++ rest)).width = token.length) :
    Reads rest p (c :: token) [] ((p.push f).pass (c :: token) true) := by
  have hstep : Native.step p c (token ++ rest) =
      .ok (.take (p.push f) c (token ++ rest) token.length true) := by
    rw [step_eq]
    cases hlexeme : p.lexeme c (token ++ rest) with
    | opening frame more =>
      rw [hlexeme] at hentered hwidth
      cases hentered
      rw [← hwidth]
      rfl
    | brace =>
      rw [hlexeme] at hentered hwidth
      cases hentered
      rw [← hwidth]
      rfl
    | run | closing | element =>
      rw [hlexeme] at hentered
      cases hentered
  have hread := single hstep rfl
  rwa [Step.take, List.take_left] at hread

/-- A character that leaves a frame. -/
theorem leave {kinds : List Frame} (hlexeme : p.lexeme c rest = .closing kinds) :
    Reads rest p [c] [] ((p.popIf kinds).pass [c] true) := by
  have hstep : Native.step p c ([] ++ rest) = .ok (.take (p.popIf kinds) c rest 0 true) := by
    rw [step_eq, List.nil_append, hlexeme]
    rfl
  exact single hstep rfl

/-- A character that is passed over, and the rest of the stretch. -/
theorem cons {more : List Char} {counts : Bool} (hlexeme : p.lexeme c (more ++ rest) = .run 0 counts)
    (hmore : Reads rest (p.pass [c] counts) more ts q) : Reads rest p (c :: more) ts q :=
  .append (.run hlexeme) hmore

theorem seen_eq (h : Reads rest p front ts q) : q.seen = front.reverse ++ p.seen := by
  induction h with
  | nil p => rfl
  | step hstep htaken hmore ih =>
    rw [step_eq] at hstep
    rw [ih, (Lexeme.step_eq_ok hstep).2.1, htaken, List.take_left, ← List.cons_append, List.reverse_append,
      List.append_assoc]

theorem pos_eq (h : Reads rest p front ts q) : q.pos = p.pos + byteLength front := by
  induction h with
  | nil p => rfl
  | step hstep htaken hmore ih =>
    rw [step_eq] at hstep
    rw [ih, (Lexeme.step_eq_ok hstep).2.2, htaken, List.take_left, ← List.cons_append, byteLength_append,
      Nat.add_assoc]

end Reads

/-! ## The statement before a brace -/

/-- A character that does not end a statement. -/
def inStatement (c : Char) : Bool := c != ';' && c != '{' && c != '}'

/-- The text since the last brace or semicolon, of a text with its last character first. -/
def statement (seen : List Char) : List Char := (seen.takeWhile inStatement).reverse

theorem Progress.braceFrame_eq (p : Progress) :
    p.braceFrame = if isClassHead (statement p.seen) then .classBody else .block := rfl

/-! ## What a step looks at -/

/-- A length that the text before a slash tells, if it ends there. -/
def Local (length : List Char → Nat) : Prop :=
  ∀ front rest rest' : List Char, length (front ++ '/' :: rest) ≤ front.length →
    length (front ++ '/' :: rest') = length (front ++ '/' :: rest)

theorem stringLength_slash_pos (quote : Char) (rest : List Char) : 0 < stringLength quote ('/' :: rest) := by
  cases rest with
  | nil => simp [stringLength]
  | cons d rest =>
    rw [stringLength, if_neg (by decide), if_neg (by decide)]
    split <;> omega

theorem local_stringLength (quote : Char) : Local (stringLength quote)
  | [], rest, rest', h => absurd h (Nat.not_le.2 (stringLength_slash_pos quote rest))
  | [c], rest, rest', h => by
    -- an escape, or a string that goes on, would take the slash
    have := stringLength_slash_pos quote rest
    simp only [List.cons_append, List.nil_append, List.length_singleton, stringLength] at h ⊢
    split_ifs at h ⊢
    all_goals omega
  | c :: d :: front, rest, rest', h => by
    simp only [List.cons_append, List.length_cons, stringLength] at h ⊢
    split_ifs at h ⊢
    · rw [local_stringLength quote front rest rest' (by omega)]
    · rfl
    · rfl
    · rw [← List.cons_append, ← List.cons_append, local_stringLength quote (d :: front) rest rest']
      rw [List.cons_append, List.length_cons]
      omega

theorem regexLength_slash_pos (bracketed : Bool) (rest : List Char) :
    0 < regexLength bracketed ('/' :: rest) := by
  cases rest with
  | nil => simp [regexLength]
  | cons d rest =>
    rw [regexLength, if_neg (by decide), if_neg (by decide)]
    split <;> omega

theorem takeWhile_append_cons {f : Char → Bool} {x : Char} (hx : f x = false) (front rest : List Char) :
    (front ++ x :: rest).takeWhile f = front.takeWhile f := by
  rw [List.takeWhile_append]
  split
  · rename_i hall
    rw [List.takeWhile_cons_of_neg (by rw [hx]; exact Bool.false_ne_true), List.append_nil]
    exact ((List.takeWhile_sublist f).eq_of_length hall).symm
  · rfl

theorem local_regexLength : ∀ bracketed, Local (regexLength bracketed)
  | bracketed, [], rest, rest', h => absurd h (Nat.not_le.2 (regexLength_slash_pos bracketed rest))
  | bracketed, [c], rest, rest', h => by
    have := regexLength_slash_pos (if c = '[' then true else if c = ']' then false else bracketed) rest
    simp only [List.cons_append, List.nil_append, List.length_singleton, regexLength] at h ⊢
    by_cases hescape : c = '\\'
    · rw [if_pos hescape] at h
      omega
    by_cases hline : c = '\n'
    · simp only [if_neg hescape, if_pos hline]
    by_cases hend : c = '/' ∧ (!bracketed) = true
    · simp only [if_neg hescape, if_neg hline, if_pos hend]
      rfl
    · rw [if_neg hescape, if_neg hline, if_neg hend] at h
      omega
  | bracketed, c :: d :: front, rest, rest', h => by
    simp only [List.cons_append, List.length_cons, regexLength] at h ⊢
    by_cases hescape : c = '\\'
    · simp only [if_pos hescape] at h ⊢
      rw [local_regexLength bracketed front rest rest' (by omega)]
    by_cases hline : c = '\n'
    · simp only [if_neg hescape, if_pos hline]
    by_cases hend : c = '/' ∧ (!bracketed) = true
    · simp only [if_neg hescape, if_neg hline, if_pos hend]
      rw [← List.cons_append, ← List.cons_append, takeWhile_append_cons (by decide),
        takeWhile_append_cons (by decide)]
    · simp only [if_neg hescape, if_neg hline, if_neg hend] at h ⊢
      rw [← List.cons_append, ← List.cons_append, local_regexLength _ (d :: front) rest rest']
      rw [List.cons_append, List.length_cons]
      omega

theorem local_lineLength : Local fun cs => (cs.takeWhile (· != '\n')).length := by
  intro front rest rest' h
  simp only [List.takeWhile_append] at h ⊢
  split at h
  · simp at h
  · rename_i hends
    simp only [if_neg hends]

/-- A word that ends within a stretch stands there whatever follows. -/
theorem prefix_drop_append_iff {n : Nat} (h : n + word.length ≤ front.length) (rest : List Char) :
    word <+: (front ++ rest).drop n ↔ word <+: front.drop n := by
  rw [List.drop_append_of_le_length (by omega)]
  constructor
  · intro hword
    refine List.prefix_of_prefix_length_le hword (List.prefix_append _ _) ?_
    rw [List.length_drop]
    omega
  · exact fun hword => hword.trans (List.prefix_append _ _)

/-- A word without a character stands in front of it, or not at all. -/
theorem prefix_append_cons_iff {x : Char} (hx : x ∉ word) (front rest : List Char) :
    word <+: front ++ x :: rest ↔ word <+: front := by
  constructor
  · intro hword
    refine List.prefix_of_prefix_length_le hword (List.prefix_append _ _) ?_
    by_contra hlt
    obtain ⟨more, hmore⟩ := hword
    have hget : (word ++ more)[front.length]? = some x := by rw [hmore]; simp
    rw [List.getElem?_append_left (by omega)] at hget
    exact hx (List.mem_of_getElem? hget)
  · exact fun hword => hword.trans (List.prefix_append _ _)

theorem blockCommentLength_of_some (cs : List Char) {inside after : List Char}
    (h : splitAtFirst "*/".toList (cs.drop 1) = some (inside, after)) :
    blockCommentLength cs = inside.length + 3 := by
  rw [blockCommentLength, h]

theorem blockCommentLength_of_none (cs : List Char) (h : splitAtFirst "*/".toList (cs.drop 1) = none) :
    blockCommentLength cs = cs.length := by
  rw [blockCommentLength, h]

/-- What a text starts with lies in a stretch that is not shorter. -/
theorem exists_eq_append {after : List Char} (h : front ++ rest = word ++ after) (hle : word.length ≤ front.length) :
    ∃ between, front = word ++ between := by
  obtain ⟨between, hbetween⟩ : word <+: front :=
    List.prefix_of_prefix_length_le ⟨after, h.symm⟩ (List.prefix_append front rest) hle
  exact ⟨between, hbetween.symm⟩

theorem local_blockCommentLength : Local blockCommentLength := by
  intro front rest rest' h
  cases hsplit : splitAtFirst "*/".toList ((front ++ '/' :: rest).drop 1) with
  | none =>
    rw [blockCommentLength_of_none _ hsplit] at h
    simp at h
  | some split =>
    obtain ⟨inside, after⟩ := split
    have hlength := blockCommentLength_of_some _ hsplit
    rw [hlength] at h ⊢
    obtain ⟨c, front, rfl⟩ := List.exists_cons_of_length_pos (show 0 < front.length by omega)
    obtain ⟨hcs, hfirst⟩ := splitAtFirst_eq_some_iff.1 hsplit
    simp only [List.cons_append, List.drop_succ_cons, List.drop_zero, List.length_cons] at h hcs hfirst
    have hclose : "*/".toList.length = 2 := by decide
    obtain ⟨between, hfront⟩ : ∃ between, front = inside ++ "*/".toList ++ between := by
      refine exists_eq_append (hcs.trans (List.append_assoc _ _ _).symm) ?_
      rw [List.length_append]
      omega
    have hsplit' : splitAtFirst "*/".toList (front ++ '/' :: rest') =
        some (inside, between ++ '/' :: rest') := by
      refine splitAtFirst_eq_some_iff.2 ⟨by simp [hfront], fun n hn hword => hfirst n hn ?_⟩
      rw [prefix_drop_append_iff (by omega)]
      exact (prefix_drop_append_iff (by omega) _).1 hword
    exact blockCommentLength_of_some (c :: front ++ '/' :: rest') hsplit'

/-- Where an element ends is told by the text up to there. -/
theorem Ends.append {depth n : Nat} (h : Ends depth (front ++ rest) n) (hle : n + closeTag.length ≤ front.length)
    (rest' : List Char) : Ends depth (front ++ rest') n := by
  have hcloses : ∀ m ≤ n, closesAt (front ++ rest') m = closesAt (front ++ rest) m := by
    intro m hm
    rw [closesAt, closesAt, Bool.eq_iff_iff, List.isPrefixOf_iff_prefix, List.isPrefixOf_iff_prefix,
      prefix_drop_append_iff (by omega), prefix_drop_append_iff (by omega)]
  have hopens : ∀ m ≤ n, opensAt (front ++ rest') m = opensAt (front ++ rest) m := by
    intro m hm
    have hlength : openTag.length + 1 ≤ closeTag.length := by decide
    have hword (c : Char) : m + (openTag ++ [c]).length ≤ front.length := by
      rw [List.length_append, List.length_singleton]
      omega
    rw [Bool.eq_iff_iff, opensAt, opensAt]
    simp only [List.any_eq_true, List.isPrefixOf_iff_prefix, prefix_drop_append_iff (hword _)]
  have htally : ∀ m ≤ n, tally (front ++ rest') (m + 1) = tally (front ++ rest) (m + 1) := by
    intro m hm
    have hcount (f g : Nat → Bool) (hfg : ∀ k ≤ n, f k = g k) :
        (List.range (m + 1)).countP f = (List.range (m + 1)).countP g :=
      List.countP_congr fun k hk => by rw [hfg k (by have := List.mem_range.1 hk; omega)]
    rw [tally, tally, hcount _ _ hopens, hcount _ _ hcloses]
  refine ⟨?_, ?_, fun m hm hclose => ?_⟩
  · rw [hcloses n le_rfl]
    exact h.closes
  · rw [htally n le_rfl]
    exact h.count
  · rw [htally m hm.le]
    rw [hcloses m hm.le] at hclose
    exact h.first m hm hclose

theorem atOpenTag_append_slash (front rest rest' : List Char) :
    atOpenTag (front ++ '/' :: rest') = atOpenTag (front ++ '/' :: rest) := by
  rw [Bool.eq_iff_iff, atOpenTag_iff, atOpenTag_iff]
  refine exists_congr fun c => and_congr_right fun hc => ?_
  have hslash : '/' ∉ openTag ++ [c] := by
    simp only [List.mem_cons, List.not_mem_nil, or_false] at hc
    rcases hc with rfl | rfl | rfl | rfl | rfl <;> decide
  rw [prefix_append_cons_iff hslash, prefix_append_cons_iff hslash]

/-- An element that ends before a slash is the same whatever follows. -/
theorem extent_append_slash {tag content : Nat} (h : extent? (front ++ '/' :: rest) = some (tag, content))
    (hle : tag + content + closeTag.length ≤ front.length) (rest' : List Char) :
    extent? (front ++ '/' :: rest') = some (tag, content) := by
  obtain ⟨attributes, inside, hcs, hfirst, rfl, hends⟩ := extent_eq_some_iff.1 h
  obtain ⟨between, rfl⟩ : ∃ between, front = (attributes ++ ['>']) ++ between := by
    refine exists_eq_append (hcs.trans (List.append_cons _ _ _)) ?_
    rw [List.length_append, List.length_singleton]
    omega
  have hinside : inside = between ++ '/' :: rest := by simpa using hcs.symm
  subst hinside
  refine extent_eq_some_iff.2 ⟨attributes, between ++ '/' :: rest', by simp, hfirst, rfl, ?_⟩
  refine hends.append ?_ _
  simp only [List.length_append, List.length_singleton] at hle
  omega

/-- An element is told by its opening tag and its content. -/
theorem Progress.template_take (p : Progress) (cs : List Char) (tag content : Nat) :
    p.template (cs.take (tag + content)) tag content = p.template cs tag content := by
  simp only [Progress.template, List.take_take, List.drop_take, Nat.add_sub_cancel_left, Nat.min_self,
    Nat.min_eq_left (Nat.le_add_right tag content)]

/-- The same lexeme takes the same characters, if it ends where two texts still agree. -/
theorem Lexeme.step_append {lexeme : Lexeme} (h : lexeme.step p c (front ++ rest) = .ok s)
    (hle : lexeme.width ≤ front.length) (rest' : List Char) : lexeme.step p c (front ++ rest') = .ok s := by
  have hstep (q : Progress) (n : Nat) (counts : Bool) (hn : n ≤ front.length) :
      Step.take q c (front ++ rest') n counts = Step.take q c (front ++ rest) n counts := by
    rw [Step.take, Step.take, List.take_append_of_le_length hn, List.take_append_of_le_length hn]
  cases lexeme with
  | run more counts => cases h; exact congrArg Except.ok (hstep _ _ _ hle)
  | opening frame more => cases h; exact congrArg Except.ok (hstep _ _ _ hle)
  | brace => cases h; exact congrArg Except.ok (hstep _ _ _ hle)
  | closing kinds => cases h; exact congrArg Except.ok (hstep _ _ _ hle)
  | element extent =>
    cases extent with
    | none => cases h
    | some extent =>
      obtain ⟨tag, content⟩ := extent
      cases h
      have hclose : closeTag.length = 11 := by decide
      have hwidth : tag + content + closeTag.length - 1 ≤ front.length := hle
      have htake : (c :: (front ++ rest')).take (tag + content) = (c :: (front ++ rest)).take (tag + content) := by
        have hn : tag + content ≤ (c :: front).length := by
          rw [List.length_cons]
          omega
        rw [← List.cons_append, ← List.cons_append, List.take_append_of_le_length hn,
          List.take_append_of_le_length hn]
      rw [Lexeme.step, hstep _ _ _ hwidth, ← p.template_take, htake, p.template_take]

theorem head?_append_slash (front rest rest' : List Char) :
    (front ++ '/' :: rest').head? = (front ++ '/' :: rest).head? := by
  cases front <;> rfl

theorem literalLexeme_append_slash (c : Char) (front rest rest' : List Char) :
    literalLexeme c (front ++ '/' :: rest') = literalLexeme c (front ++ '/' :: rest) := by
  rw [literalLexeme, literalLexeme, head?_append_slash front rest rest']

/-- A lexeme that ends before a slash is the same whatever follows. -/
theorem codeLexeme_append_slash {regex : Bool}
    (hwidth : (codeLexeme regex c (front ++ '/' :: rest)).width ≤ front.length)
    (hclosed : codeLexeme regex c (front ++ '/' :: rest) ≠ .element none) (rest' : List Char) :
    codeLexeme regex c (front ++ '/' :: rest') = codeLexeme regex c (front ++ '/' :: rest) := by
  unfold codeLexeme at hwidth hclosed ⊢
  rw [head?_append_slash front rest rest']
  refine ite_congr rfl (fun hstring => ?_) fun hstring => ?_
  · rw [if_pos hstring] at hwidth
    rw [local_stringLength c front rest rest' hwidth]
  rw [if_neg hstring] at hwidth hclosed
  refine ite_congr rfl (fun _ => rfl) fun hliteral => ?_
  rw [if_neg hliteral] at hwidth hclosed
  refine ite_congr rfl (fun hline => ?_) fun hline => ?_
  · rw [if_pos hline] at hwidth
    exact congrArg (Lexeme.run · false) (local_lineLength front rest rest' hwidth)
  rw [if_neg hline] at hwidth hclosed
  refine ite_congr rfl (fun hblock => ?_) fun hblock => ?_
  · rw [if_pos hblock] at hwidth
    rw [local_blockCommentLength front rest rest' hwidth]
  rw [if_neg hblock] at hwidth hclosed
  refine ite_congr rfl (fun hregex => ?_) fun hregex => ?_
  · rw [if_pos hregex] at hwidth
    rw [local_regexLength false front rest rest' hwidth]
  rw [if_neg hregex] at hwidth hclosed
  refine ite_congr ?_ (fun hopen => ?_) fun _ => rfl
  · rw [← List.cons_append, atOpenTag_append_slash]
    rfl
  rw [if_pos hopen] at hwidth hclosed
  cases hextent : extent? (c :: (front ++ '/' :: rest)) with
  | none => exact absurd (congrArg Lexeme.element hextent) hclosed
  | some extent =>
    rw [hextent] at hwidth
    have hle : extent.1 + extent.2 + closeTag.length - 1 ≤ front.length := hwidth
    rw [← List.cons_append, extent_append_slash hextent (by rw [List.length_cons]; omega)]

/-- A step that ends before a slash is the same whatever follows. -/
theorem step_append_slash (h : step p c (front ++ '/' :: rest) = .ok s) (hle : s.taken ≤ front.length)
    (rest' : List Char) : step p c (front ++ '/' :: rest') = .ok s := by
  rw [step_eq] at h ⊢
  have hwidth : (p.lexeme c (front ++ '/' :: rest)).width ≤ front.length := (Lexeme.step_eq_ok h).1 ▸ hle
  have hclosed : p.lexeme c (front ++ '/' :: rest) ≠ .element none := by
    intro hnone
    rw [hnone] at h
    cases h
  have hlexeme : p.lexeme c (front ++ '/' :: rest') = p.lexeme c (front ++ '/' :: rest) := by
    unfold Progress.lexeme at hwidth hclosed ⊢
    refine ite_congr rfl (fun hcode => ?_) fun _ => literalLexeme_append_slash c front rest rest'
    rw [if_pos hcode] at hwidth hclosed
    exact codeLexeme_append_slash hwidth hclosed rest'
  rw [hlexeme]
  exact Lexeme.step_append h hwidth _

/-- A stretch before a slash is read in the same way whatever follows. -/
theorem Reads.append_slash {q : Progress} {ts : List NativeTemplate} (h : Reads ('/' :: rest) p front ts q)
    (rest' : List Char) : Reads ('/' :: rest') p front ts q := by
  induction h with
  | nil p => exact .nil p
  | step hstep htaken hmore ih =>
    refine .step ?_ htaken ih
    rw [← List.append_assoc] at hstep ⊢
    refine step_append_slash hstep ?_ rest'
    rw [htaken, List.length_append]
    exact Nat.le_add_right _ _

end TypedTemplate.Script.Native
