/-
Quoted values as template literals. From one backtick to the other, a backslash makes the next character literal, and
a dollar sign with a brace opens an expression, which ends with the brace that closes it. So read, the code of a
quoted value has the parts of the value as its parts, each text with its characters and each mustache with its code:
no text ends in the middle of an escape, and none that ends with a dollar sign comes before a brace.
-/
import TypedTemplate.Proofs.Compiled.Directives
import TypedTemplate.Proofs.Emit.Formed

namespace TypedTemplate

/-! ## Template literals -/

namespace Code

/-- A part of a template literal: characters, or the code of an expression. -/
inductive LiteralPart where
  | text (chars : List Char)
  | hole (code : List Char)
  deriving Repr, DecidableEq

open LiteralPart

/-- A character before the parts of a literal. -/
def addChar (c : Char) : List LiteralPart → List LiteralPart
  | .text cs :: ps => .text (c :: cs) :: ps
  | ps => .text [c] :: ps

/-- Characters that are read as the parts of a template literal, up to its closing backtick, with what comes after. -/
inductive Literal : List Char → List LiteralPart → List Char → Prop
  | close (rest : List Char) : Literal ('`' :: rest) [] rest
  | escaped (c : Char) {cs rest : List Char} {ps : List LiteralPart} (h : Literal cs ps rest) :
    Literal ('\\' :: c :: cs) (addChar c ps) rest
  | hole {code cs text rest : List Char} {ps : List LiteralPart} (hcode : balanced code = true)
    (htext : text = code ++ '}' :: cs) (h : Literal cs ps rest) : Literal ('$' :: '{' :: text) (.hole code :: ps) rest
  | char {c : Char} {cs rest : List Char} {ps : List LiteralPart} (hbacktick : c ≠ '`') (hbackslash : c ≠ '\\')
    (hbrace : c = '$' → cs.head? ≠ some '{') (h : Literal cs ps rest) : Literal (c :: cs) (addChar c ps) rest

variable {cs ds rest : List Char}

/-- Balanced code does not go on after a brace that it does not open. -/
theorem balanced_append_brace (h : balanced cs = true) (rest : List Char) : balanced (cs ++ '}' :: rest) = false := by
  obtain ⟨gs, hgs, hscan⟩ := scan_append [] ('}' :: rest) (of_decide_eq_true h) rfl
  cases List.map_eq_nil_iff.1 hgs
  rw [List.append_nil] at hscan
  rw [balanced, hscan]
  rfl

/-- An expression ends in one way. -/
theorem balanced_brace_inj (hcs : balanced cs = true) (hds : balanced ds = true) {rest' : List Char}
    (h : cs ++ '}' :: rest = ds ++ '}' :: rest') : cs = ds ∧ rest = rest' := by
  have hend {as bs more xs ys : List Char} (has : balanced as = true) (hbs : balanced bs = true)
      (hmore : bs = as ++ more) (hrest : '}' :: xs = more ++ '}' :: ys) : more = [] := by
    cases more with
    | nil => rfl
    | cons c more =>
      cases (List.cons.inj hrest).1
      rw [hmore, balanced_append_brace has] at hbs
      cases hbs
  rcases List.append_eq_append_iff.1 h with ⟨more, hmore, hrest⟩ | ⟨more, hmore, hrest⟩
  · cases hend hcs hds hmore hrest
    simp_all
  · cases hend hds hcs hmore hrest
    simp_all

/-- There is one way to read a literal. -/
theorem Literal.unique {ps ps' : List LiteralPart} {rest' : List Char} (h : Literal cs ps rest)
    (h' : Literal cs ps' rest') : ps = ps' ∧ rest = rest' := by
  induction h generalizing ps' with
  | close =>
    cases h' with
    | close => exact ⟨rfl, rfl⟩
    | char hbacktick => exact absurd rfl hbacktick
  | escaped c _ ih =>
    cases h' with
    | escaped _ h' => exact ⟨congrArg _ (ih h').1, (ih h').2⟩
    | char _ hbackslash => exact absurd rfl hbackslash
  | hole hcode htext _ ih =>
    cases h' with
    | hole hcode' htext' h' =>
      obtain ⟨rfl, rfl⟩ := balanced_brace_inj hcode hcode' (htext.symm.trans htext')
      exact ⟨congrArg _ (ih h').1, (ih h').2⟩
    | char _ _ hbrace => exact absurd rfl (hbrace rfl)
  | char hbacktick hbackslash hbrace _ ih =>
    cases h' with
    | close => exact absurd rfl hbacktick
    | escaped => exact absurd rfl hbackslash
    | hole => exact absurd rfl (hbrace rfl)
    | char _ _ _ h' => exact ⟨congrArg _ (ih h').1, (ih h').2⟩

/-- A text in front of parts that start with none. -/
theorem foldr_addChar {ps : List LiteralPart} (hps : ∀ cs rest, ps ≠ .text cs :: rest) :
    ∀ {cs : List Char}, cs ≠ [] → cs.foldr addChar ps = .text cs :: ps
  | [c], _ => by
    rw [List.foldr_cons, List.foldr_nil, addChar]
    exact fun cs rest hcs => hps cs rest hcs
  | c :: d :: cs, _ => by
    rw [List.foldr_cons, foldr_addChar hps (List.cons_ne_nil d cs)]
    rfl

end Code

/-! ## Quoted values -/

namespace Emit

open Draft Template Code

variable {next rest : List Char} {ps : List LiteralPart}

/-- The escapes of a text are undone, whatever comes next but a brace: after a dollar sign it would open an
expression. -/
theorem literal_text (h : Literal next ps rest) (hnext : next.head? ≠ some '{') (cs : List Char) :
    Literal (templateLiteralText cs ++ next) (cs.foldr addChar ps) rest := by
  rw [templateLiteralText_eq]
  induction cs using literalEscaped.induct with
  | case1 => exact h
  | case2 cs ih => exact .escaped '\\' ih
  | case3 cs ih => exact .escaped '`' ih
  | case4 cs ih => exact .escaped '$' (.char (by decide) (by decide) (by simp) ih)
  | case5 c cs hbackslash hbacktick hdollar ih =>
    have hbrace : c = '$' → (literalEscaped cs ++ next).head? ≠ some '{' := by
      rintro rfl hhead
      cases cs with
      | nil => exact hnext hhead
      | cons d cs =>
        -- a brace is written as it is, and only a brace starts with one
        rw [literalEscaped.eq_def] at hhead
        split at hhead
        all_goals simp_all
    rw [literalEscaped]
    · exact .char hbacktick hbackslash hbrace ih
    all_goals assumption

/-- A part of a quoted value as it stands in a template literal. -/
def literalPart (b : Bindings) : ConcatPart → LiteralPart
  | .text t => .text t.chars.toList
  | .mustache m => .hole (code (mustacheValue b false m)).toList

theorem literal_mustache (b : Bindings) (m : Mustache) (h : Literal next ps rest) :
    Literal ((code (concatPart b (.mustache m))).toList ++ next) (literalPart b (.mustache m) :: ps) rest := by
  have hcode : (code (concatPart b (.mustache m))).toList ++ next =
      '$' :: '{' :: ((code (mustacheValue b false m)).toList ++ '}' :: next) := by
    simp [concatPart, Draft.node, code, codeOf]
  have hbalanced := (formed_mustacheValue b false m).bracketed [] []
  rw [List.append_nil] at hbalanced
  rw [hcode]
  exact .hole (decide_eq_true hbalanced) rfl h

/-- Parts of which no text is empty and no two texts follow each other are read back. -/
theorem literal_concatParts (b : Bindings) (rest : List Char) : ∀ {parts : List ConcatPart}, Parted parts →
    (∀ t, .text t ∈ parts → t.chars.toList ≠ []) →
      Literal ((code (parts.flatMap (concatPart b))).toList ++ '`' :: rest) (parts.map (literalPart b)) rest
  | [], _, _ => .close rest
  | .mustache m :: parts, hparted, hfull => by
    rw [List.flatMap_cons, code_append, String.toList_append, List.append_assoc]
    have hparts : Parted parts := hparted
    exact literal_mustache b m (literal_concatParts b rest hparts fun t ht => hfull t (List.mem_cons_of_mem _ ht))
  | .text t :: parts, hparted, hfull => by
    -- a backtick or an expression comes next
    have hparts : Parted parts ∧ (∀ cs more, parts.map (literalPart b) ≠ .text cs :: more) ∧
        ((code (parts.flatMap (concatPart b))).toList ++ '`' :: rest).head? ≠ some '{' := by
      cases parts with
      | nil => simp [Parted, code]
      | cons p parts =>
        cases p with
        | text t' => exact hparted.elim
        | mustache m => exact ⟨hparted, by simp [literalPart], by simp [concatPart, code, codeOf]⟩
    have hread := literal_text (literal_concatParts b rest hparts.1 fun t ht => hfull t (List.mem_cons_of_mem _ ht))
      hparts.2.2 t.chars.toList
    rw [foldr_addChar hparts.2.1 (hfull t List.mem_cons_self)] at hread
    rw [List.flatMap_cons, code_append, String.toList_append, List.append_assoc]
    simpa [concatPart, literalPart, code, codeOf] using hread

end Emit

/-! ## Values of a template -/

namespace Template

/-- The texts of a value that is spelled in some text are not empty. -/
theorem AttrValue.Spelled.text_ne_nil {source : String} {parts : List ConcatPart} {span : Span}
    (h : (AttrValue.concat parts span).Spelled source) {t : TextRun} (ht : .text t ∈ parts) :
    t.chars.toList ≠ [] := by
  obtain ⟨-, htile, hspelled⟩ := h
  have hlt : t.span.start < t.span.stop := htile.pos (List.mem_map_of_mem ht)
  have hsize := (Text.size_of_slice (hspelled _ ht)).1
  intro hnil
  rw [String.toList_eq_nil_iff.1 hnil] at hsize
  have hzero : Text.size "" = 0 := rfl
  omega

end Template

namespace Emit

open Draft Template Code

/-- The code of a quoted value in a template, read as a template literal, has the parts of the value as its parts, and
ends with its last backtick, whatever code comes next. -/
theorem quoted_value_read_back {source : String} {t : Template} {body : List Statement} {e : Element} {a : Attribute}
    {parts : List ConcatPart} {span : Span} (hparse : parse source = .ok t) (hbody : IsBody t.body body)
    (he : .element e ∈ body) (ha : a ∈ e.attributes) (hvalue : a.value = .concat parts span) (b : Bindings)
    (asArgument : Bool) :
    ∃ cs, (code (attrValue b asArgument a.value)).toList = '`' :: cs ∧
      ∀ rest ps after, Literal (cs ++ rest) ps after ↔ ps = parts.map (literalPart b) ∧ after = rest := by
  have haccounted := hbody.accounted ((parse_known source).ok t hparse).2.accounted
  obtain ⟨hframed, -⟩ := (Statement.accounted_element source e).1 ((statementsAccounted_iff source).1 haccounted _ he)
  have hspelled := (hframed.attributes a ha).value
  obtain ⟨closed, htidy⟩ := hbody.tidy (parse_tidy hparse)
  have hneat := (htidy.element he).2.values a ha
  rw [hvalue] at hspelled hneat ⊢
  refine ⟨(code (parts.flatMap (concatPart b))).toList ++ ['`'], ?_, fun rest ps after => ?_⟩
  · simp [attrValue, Draft.node, code, codeOf]
  · have hread := literal_concatParts b rest hneat fun t ht => hspelled.text_ne_nil ht
    rw [List.append_assoc, List.singleton_append]
    refine ⟨fun h => h.unique hread, ?_⟩
    rintro ⟨rfl, rfl⟩
    exact hread

/-- A dollar sign before a mustache and a backslash before the end are read as such. -/
theorem dollar_and_backslash_read_back :
    let b : Bindings := { forms := .ofEntries [], globals := none }
    let parts := [.text ['`', '$'], .hole "__glintDSL__.resolveOrReturn(__glintDSL__.Globals[\"c\"])()".toList,
      .text ['$', '\\']]
    ∃ t e a, parse "<a b=\"`$\x7b\x7bc\x7d\x7d$\\\"/>" = .ok t ∧ .element e ∈ t.body ∧ a ∈ e.attributes ∧
      ∃ cs, (code (attrValue b false a.value)).toList = '`' :: cs ∧ Literal (cs ++ [',']) parts [','] := by
  intro b read
  have hread : ∃ t e a parts span, parse "<a b=\"`$\x7b\x7bc\x7d\x7d$\\\"/>" = .ok t ∧ .element e ∈ t.body ∧
      a ∈ e.attributes ∧ a.value = .concat parts span ∧ parts.map (literalPart b) = read :=
    ⟨_, _, _, _, _, rfl, List.mem_cons_self, List.mem_cons_self, rfl, by decide +kernel⟩
  obtain ⟨t, e, a, parts, span, hparse, he, ha, hvalue, hparts⟩ := hread
  obtain ⟨cs, hcode, hliteral⟩ := quoted_value_read_back hparse (.self _) he ha hvalue b false
  exact ⟨t, e, a, hparse, he, ha, cs, hcode, (hliteral _ _ _).2 ⟨hparts.symm, rfl⟩⟩

end Emit

end TypedTemplate
