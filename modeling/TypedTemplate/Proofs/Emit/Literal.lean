/-
The texts that emitters write: identifiers, quoted names, numbers and other literals close what they open, whatever
they stand for, and so does text between backticks.
-/
import TypedTemplate.Emit.Statement
import TypedTemplate.Proofs.Code.Reading

namespace TypedTemplate

namespace Text

variable (other : List Char)

theorem replaceAll_of_not {word : List Char} {c : Char} {cs : List Char} (h : word.isPrefixOf (c :: cs) = false) :
    replaceAll word other (c :: cs) = c :: replaceAll word other cs := by
  rw [replaceAll, replaceAll.go, if_neg (by simp [h])]
  rfl

theorem replaceAll_char (x : Char) (cs : List Char) :
    replaceAll [x] other cs = cs.flatMap fun c => if c = x then other else [c] := by
  induction cs with
  | nil => rfl
  | cons c cs ih =>
    rw [List.flatMap_cons, ← ih]
    by_cases hc : c = x
    · rw [if_pos hc, replaceAll, replaceAll.go, if_pos (by simp [hc])]
      rfl
    · rw [if_neg hc, replaceAll_of_not other (by simp [List.isPrefixOf, Ne.symm hc])]
      rfl

end Text

namespace Emit

open Code (role)
open Draft Template

/-! ## Names -/

theorem role_of_identifier {c : Char} (h : isIdentifierChar c = true) : role c = .plain := by
  unfold role
  split <;> first | rfl | exact absurd h (by decide)

theorem bracketed_identifier {name : String} (h : name.toList.all isIdentifierChar = true) :
    Code.Bracketed name.toList :=
  Code.bracketed_plain fun c hc => role_of_identifier (List.all_eq_true.1 h c hc)

theorem isIdentifierChar_of_start {c : Char} (h : isIdentifierStart c = true) :
    isIdentifierChar c = true := by
  simp only [isIdentifierStart, isIdentifierChar, Char.isAlphanum, Bool.or_eq_true] at h ⊢
  tauto

theorem all_of_isIdentifier {name : String} (h : isIdentifier name = true) :
    name.toList.all isIdentifierChar = true := by
  unfold isIdentifier at h
  cases hname : name.toList with
  | nil => rfl
  | cons c cs =>
    rw [hname] at h
    obtain ⟨hc, hcs⟩ := Bool.and_eq_true_iff.1 h
    rw [List.all_cons, isIdentifierChar_of_start hc, hcs]
    rfl

theorem isQuotable_digit {n : Nat} (h : n < 16) : Code.isQuotable ((Nat.toDigits 16 n).headD '0') = true := by
  have hdigit : ∀ n < 16, Code.isQuotable ((Nat.toDigits 16 n).headD '0') = true := by decide
  exact hdigit n h

theorem scan_quotedChar (fs : List Code.Frame) (c : Char) (next : List Char) :
    Code.scan ⟨.string '"', fs⟩ (Text.quotedChar c ++ next) = Code.scan ⟨.string '"', fs⟩ next := by
  unfold Text.quotedChar
  split
  case h_8 =>
    rename_i hquote hbackslash _ _ hfeed _ hreturn
    split
    · rename_i hcontrol
      have hfirst : c.toNat / 16 < 16 := by omega
      have hsecond : c.toNat % 16 < 16 := Nat.mod_lt _ (by decide)
      show Code.scan ⟨.string '"', fs⟩ ((Nat.toDigits 16 (c.toNat / 16)).headD '0' ::
        (Nat.toDigits 16 (c.toNat % 16)).headD '0' :: next) = _
      rw [Code.scan_quotable (isQuotable_digit hfirst), Code.scan_quotable (isQuotable_digit hsecond)]
    · refine Code.scan_quotable ?_ fs next
      simp only [Code.isQuotable, Code.isLineEnd, Bool.and_eq_true, bne_iff_ne, Bool.not_eq_eq_eq_not,
        Bool.not_true, Bool.or_eq_false_iff, beq_eq_false_iff_ne]
      exact ⟨⟨hquote, hbackslash⟩, hfeed, hreturn⟩
  all_goals rfl

/-- A text between quotes is one string. -/
theorem bracketed_quoted (s : String) : Code.Bracketed (Text.quoted s).toList := by
  intro fs next
  have hbody (cs : List Char) (rest : List Char) :
      Code.scan ⟨.string '"', fs⟩ (cs.flatMap Text.quotedChar ++ rest) = Code.scan ⟨.string '"', fs⟩ rest := by
    induction cs with
    | nil => rfl
    | cons c cs ih => rw [List.flatMap_cons, List.append_assoc, scan_quotedChar, ih]
  have hquoted : (Text.quoted s).toList ++ next =
      '"' :: (s.toList.flatMap Text.quotedChar ++ '"' :: next) := by
    simp [Text.quoted, Text.quotedBody]
  rw [hquoted]
  show Code.scan ⟨.string '"', fs⟩ _ = _
  rw [hbody]
  rfl

theorem localName_all (name : String) :
    (localName name).1.toList.all isIdentifierChar = true ∧
      (localName name).2.toList.all isIdentifierChar = true := by
  have hlead : "__".toList.all isIdentifierChar = true := by decide
  unfold localName
  split
  · rename_i hreserved
    have hall : reservedWords.all (fun w => w.toList.all isIdentifierChar) = true := by decide
    exact ⟨hlead, List.all_eq_true.1 hall name (List.contains_iff_mem.1 hreserved)⟩
  · split
    · rename_i hname
      exact ⟨rfl, all_of_isIdentifier hname⟩
    · refine ⟨hlead, ?_⟩
      rw [String.toList_ofList, List.all_map, List.all_eq_true]
      intro c _
      dsimp only [Function.comp]
      split
      · rename_i hc
        exact hc
      · rfl

theorem localIdentifier_eq (name : String) (span : Span) :
    code (localIdentifier name span) = (localName name).1 ++ (localName name).2 := by
  unfold localIdentifier
  split
  · rename_i heq
    rw [heq]
    simp [Draft.name, code, codeOf]
  · rename_i heq
    rw [heq]
    simp [Draft.name, code, codeOf]

theorem code_quotedName (name : String) (span : Span) :
    code (quotedName name span) = Text.quoted name := by
  unfold quotedName
  split
  · rename_i hbody
    rw [Text.quoted, hbody, ← String.toList_inj]
    simp [Draft.name, code, codeOf]
  · simp [Draft.name, code, codeOf]

/-! ## Literals -/

theorem role_of_digit {c : Char} (h : c.isDigit = true) : role c = .plain :=
  role_of_identifier (by simp [isIdentifierChar, Char.isAlphanum, h])

theorem role_of_mem_positional {d : Nat} {p : Int} :
    ∀ c ∈ (Decimal.positional d p).toList, role c = .plain := by
  have hdigits : ∀ c ∈ Nat.toDigits 10 d, role c = .plain := fun c hc =>
    role_of_digit (Nat.isDigit_of_mem_toDigits (by decide) (by decide) hc)
  have hzeros (n : Nat) : ∀ c ∈ List.replicate n '0', role c = .plain := by
    intro c hc
    rw [List.eq_of_mem_replicate hc]
    rfl
  intro c hc
  unfold Decimal.positional at hc
  dsimp only at hc
  split at hc
  · rw [String.toList_ofList] at hc
    rcases List.mem_append.1 hc with hc | hc
    · exact hdigits c hc
    · exact hzeros _ c hc
  · -- digits with zeros before them, and a point somewhere
    have hall : ∀ c ∈ List.replicate ((-p).toNat + 1 - (Nat.toDigits 10 d).length) '0' ++
        Nat.toDigits 10 d, role c = .plain := by
      intro c hc
      rcases List.mem_append.1 hc with hc | hc
      · exact hzeros _ c hc
      · exact hdigits c hc
    simp only [String.toList_append, String.toList_ofList] at hc
    rcases List.mem_append.1 hc with hc | hc
    · rcases List.mem_append.1 hc with hc | hc
      · exact hall c (List.mem_of_mem_take hc)
      · rw [List.mem_singleton.1 hc]
        rfl
    · exact hall c (List.mem_of_mem_drop hc)

/-- A number in code is a sign, digits and a point, or the name of an infinity. -/
theorem bracketed_number (x : Decimal.Double) : Code.Bracketed x.code.toList := by
  have hzero : Code.Bracketed "0".toList := Code.bracketed_text rfl
  have hplus : Code.Bracketed "".toList := Code.bracketed_text rfl
  have hminus : Code.Bracketed "-".toList := Code.bracketed_text rfl
  unfold Decimal.Double.code
  split
  · exact hzero
  · cases x with
    | infinite negative =>
      cases negative
      · exact Code.bracketed_text (show Code.after [] "inf" = _ from rfl)
      · exact Code.bracketed_text (show Code.after [] "-inf" = _ from rfl)
    | finite negative m q =>
      have hsign : Code.Bracketed (if negative then "-" else "").toList := by
        split
        · exact hminus
        · exact hplus
      unfold Decimal.Double.render
      dsimp only
      split
      · rw [String.toList_append]
        exact hsign.append hzero
      · rw [String.toList_append]
        exact hsign.append (Code.bracketed_plain role_of_mem_positional)

theorem bracketed_literal (value : Literal) : Code.Bracketed (literalCode value).toList := by
  cases value with
  | string value => exact bracketed_quoted value
  | number value => exact bracketed_number value
  | boolean value =>
    cases value
    · exact Code.bracketed_text rfl
    · exact Code.bracketed_text rfl
  | null => exact Code.bracketed_text rfl
  | undefined => exact Code.bracketed_text rfl

/-! ## Lines -/

theorem blank_line (depth : Nat) : ∀ c ∈ (code [line depth]).toList, Code.isBlank c = true := by
  have hspaces : ∀ c ∈ (String.join (List.replicate depth "  ")).toList, Code.isBlank c = true := by
    induction depth with
    | zero => simp
    | succ depth ih =>
      rw [List.replicate_succ, String.join_cons, String.toList_append]
      intro c hc
      rcases List.mem_append.1 hc with hc | hc
      · rw [show c = ' ' by simpa using hc]
        rfl
      · exact ih c hc
  intro c hc
  rw [line, code, codeOf, code, String.append_empty, String.toList_append] at hc
  rcases List.mem_append.1 hc with hc | hc
  · rw [show c = '\n' by simpa using hc]
    rfl
  · exact hspaces c hc

/-! ## Text between backticks -/

/-- The escapes of a template literal's text, made in one pass. -/
def literalEscaped : List Char → List Char
  | [] => []
  | '\\' :: rest => '\\' :: '\\' :: literalEscaped rest
  | '`' :: rest => '\\' :: '`' :: literalEscaped rest
  | '$' :: '{' :: rest => '\\' :: '$' :: '{' :: literalEscaped rest
  | c :: rest => c :: literalEscaped rest

/-- A character once backslashes and backticks are escaped. -/
def tickEscaped (c : Char) : List Char :=
  if c = '\\' then ['\\', '\\'] else if c = '`' then ['\\', '`'] else [c]

/-- The backslash that a backtick gets is not escaped again: backslashes are gone through before. -/
theorem replaceAll_ticks (cs : List Char) :
    Text.replaceAll ['`'] ['\\', '`'] (Text.replaceAll ['\\'] ['\\', '\\'] cs) = cs.flatMap tickEscaped := by
  rw [Text.replaceAll_char, Text.replaceAll_char, List.flatMap_assoc]
  congr 1
  funext c
  unfold tickEscaped
  by_cases hslash : c = '\\'
  · subst hslash
    rfl
  · by_cases htick : c = '`' <;> simp [hslash, htick]

/-- No escape starts with a brace. -/
theorem head_tickEscaped {cs : List Char} (h : cs.head? ≠ some '{') : (cs.flatMap tickEscaped).head? ≠ some '{' := by
  cases cs with
  | nil => exact h
  | cons c cs =>
    rw [List.flatMap_cons]
    unfold tickEscaped
    split
    · simp
    · split
      · simp
      · simpa using h

/-- The third replacement finds the openings of the text itself: an escape neither ends with a dollar sign nor starts
with a brace, so that none is made or lost by the first two. -/
theorem templateLiteralText_eq (cs : List Char) : templateLiteralText cs = literalEscaped cs := by
  rw [templateLiteralText, replaceAll_ticks]
  induction cs using literalEscaped.induct with
  | case1 => rfl
  | case2 rest ih =>
    rw [literalEscaped, ← ih]
    rfl
  | case3 rest ih =>
    rw [literalEscaped, ← ih]
    rfl
  | case4 rest ih =>
    rw [literalEscaped, ← ih]
    rfl
  | case5 c rest hslash htick hopen ih =>
    have hchar : tickEscaped c = [c] := by
      rw [tickEscaped, if_neg hslash, if_neg htick]
    have hnone : ['$', '{'].isPrefixOf (c :: rest.flatMap tickEscaped) = false := by
      by_contra hopens
      obtain ⟨hc, hrest⟩ : c = '$' ∧ (rest.flatMap tickEscaped).head? = some '{' := by
        cases hflat : rest.flatMap tickEscaped with
        | nil => simp [hflat] at hopens
        | cons d ds =>
          rw [hflat] at hopens
          simp only [List.isPrefixOf, Bool.and_true, Bool.not_eq_false, Bool.and_eq_true, beq_iff_eq] at hopens
          exact ⟨hopens.1.symm, congrArg some hopens.2.symm⟩
      refine head_tickEscaped (fun hhead => ?_) hrest
      obtain ⟨tail, rfl⟩ := List.head?_eq_some_iff.1 hhead
      exact hopen tail hc rfl
    rw [literalEscaped, ← ih, List.flatMap_cons, hchar, List.singleton_append, Text.replaceAll_of_not _ hnone]
    all_goals assumption

/-- In the text of a template literal, maybe after a dollar sign. -/
def InLiteral (m : Code.Mode) : Prop := m = .literal ∨ m = .dollar

/-- Text between backticks opens nothing and closes nothing. -/
theorem scan_literalText (fs : List Code.Frame) (next : List Char) :
    ∀ (cs : List Char) {m : Code.Mode}, m = .literal ∨ m = .dollar ∧ cs.head? ≠ some '{' →
      ∃ m', InLiteral m' ∧
        Code.scan ⟨m, fs⟩ (templateLiteralText cs ++ next) = Code.scan ⟨m', fs⟩ next := by
  intro cs
  rw [templateLiteralText_eq]
  induction cs using literalEscaped.induct with
  | case1 =>
    intro m hm
    exact ⟨m, hm.imp id And.left, rfl⟩
  | case2 rest ih =>
    intro m hm
    obtain ⟨m', hm', hread⟩ := ih (.inl rfl)
    refine ⟨m', hm', ?_⟩
    rw [← hread]
    rcases hm with rfl | ⟨rfl, -⟩ <;> rfl
  | case3 rest ih =>
    intro m hm
    obtain ⟨m', hm', hread⟩ := ih (.inl rfl)
    refine ⟨m', hm', ?_⟩
    rw [← hread]
    rcases hm with rfl | ⟨rfl, -⟩ <;> rfl
  | case4 rest ih =>
    intro m hm
    obtain ⟨m', hm', hread⟩ := ih (.inl rfl)
    refine ⟨m', hm', ?_⟩
    rw [← hread]
    rcases hm with rfl | ⟨rfl, -⟩ <;> rfl
  | case5 c rest hbackslash hbacktick hdollar ih =>
    intro m hm
    -- only a dollar sign that no brace follows is written as it is
    have hnext : Code.literalStep c = .literal ∨
        Code.literalStep c = .dollar ∧ rest.head? ≠ some '{' := by
      unfold Code.literalStep
      split
      · exact absurd rfl hbacktick
      · exact absurd rfl hbackslash
      · refine .inr ⟨rfl, fun hrest => ?_⟩
        obtain ⟨tail, rfl⟩ := List.head?_eq_some_iff.1 hrest
        exact hdollar tail rfl rfl
      · exact .inl rfl
    have hstep : Code.lineStep (literalEscaped rest ++ next) ⟨m, fs⟩ c =
        some ⟨Code.literalStep c, fs⟩ := by
      rcases hm with rfl | ⟨rfl, hhead⟩
      · rfl
      · have hbrace : c ≠ '{' := fun hc => hhead (by rw [hc]; rfl)
        exact if_neg hbrace
    obtain ⟨m', hm', hread⟩ := ih hnext
    refine ⟨m', hm', ?_⟩
    rw [literalEscaped]
    · rw [List.cons_append, Code.scan_cons, hstep]
      exact hread
    all_goals assumption

/-- An expression in a template literal, up to its code. -/
theorem scan_hole {m : Code.Mode} (hm : InLiteral m) (fs : List Code.Frame) (next : List Char) :
    Code.scan ⟨m, fs⟩ ("$\x7b".toList ++ next) = Code.scan ⟨.code, ⟨.hole, next⟩ :: fs⟩ next := by
  rcases hm with rfl | rfl <;> rfl

end Emit

end TypedTemplate
