/-
The word `else` between braces has two readers. One tells by the characters which braces begin with it, and passes
over all white space; the other takes the tokens, and passes over separators only. They agree where the white space
before the word separates tokens. Elsewhere a character is taken for the word, and the word for what follows it.
-/
import TypedTemplate.Proofs.Template.LongestMatch
import TypedTemplate.Proofs.Template.Reader.Statement

namespace TypedTemplate.Template

open Text

/-! ## Tokens at white space -/

namespace Lexer

variable {c : Cursor} {x : Char} {gap rest : List Char}

/-- White space and tildes. -/
def isPadding (x : Char) : Bool := isBlank x || x == '~'

/-- Tildes and the white space that separates tokens. -/
def isSeparated (x : Char) : Bool := isSeparator x || x == '~'

/-- White space is taken as invalid, one character at a time. -/
theorem scan_blank (h : isBlank x = true) (cs : List Char) : scan (x :: cs) = (.invalid, 1) := by
  have hname : isNameChar x ≠ true := by
    rw [isNameChar, h]
    exact Bool.false_ne_true
  have hne {y : Char} (hy : isBlank y = false) : x ≠ y := by
    rintro rfl
    cases hy.symm.trans h
  have hmark : TokenKind.ofMark? x = none := by
    unfold TokenKind.ofMark?
    split
    case h_10 => rfl
    all_goals cases h
  have hclose : x ≠ '}' := hne (by decide)
  have hquote : ¬(x = '"' ∨ x = '\'') := not_or.2 ⟨hne (by decide), hne (by decide)⟩
  have hnumber : numberLength (x :: cs) = 0 := by
    by_contra hpos
    obtain ⟨u, -, -, hbegins⟩ := begins_of_leads (List.take_prefix _ _) (take_numberLength hpos)
    exact hname (hbegins.of_word hmark hclose hquote).2
  have hnone : nameLength (x :: cs) = 0 := by
    rw [nameLength, List.takeWhile_cons_of_neg hname]
    rfl
  rw [scan_word hmark hclose hquote, scanWord, if_pos ⟨hnumber, hnone⟩]

/-- The token after the separators at a place. -/
theorem next_of_scan {kind : TokenKind} {n : Nat} (hrest : c.rest.dropWhile isSeparator = rest)
    (hscan : scan rest = (kind, n)) : (next c).token.kind = kind ∧
      (next c).token.text = String.ofList (rest.take n) ∧ (next c).after.rest = rest.drop n := by
  have hbefore : (next c).before.rest = rest := hrest
  have hkind : (next c).token.kind = (scan (next c).before.rest).1 := rfl
  have htext : (next c).token.text = String.ofList ((next c).before.rest.take (scan (next c).before.rest).2) := rfl
  have hafter : (next c).after.rest = (next c).before.rest.drop (scan (next c).before.rest).2 := rfl
  rw [hbefore, hscan] at hkind htext hafter
  exact ⟨hkind, htext, hafter⟩

/-- A text of white space either separates tokens, or holds a first character that does not. -/
theorem separated_or_cut (blanks : List Char) : blanks.all isSeparator = true ∨
    ∃ gap x more, blanks = gap ++ x :: more ∧ gap.all isSeparator = true ∧ isSeparator x = false := by
  induction blanks with
  | nil => exact .inl rfl
  | cons y blanks ih =>
    cases hy : isSeparator y with
    | false => exact .inr ⟨[], y, blanks, rfl, rfl, hy⟩
    | true =>
      rcases ih with hall | ⟨gap, x, more, rfl, hgap, hx⟩
      · exact .inl (by rw [List.all_cons, hy, hall]; rfl)
      · exact .inr ⟨y :: gap, x, more, rfl, by rw [List.all_cons, hy, hgap]; rfl, hx⟩

theorem dropWhile_gap (hgap : gap.all isSeparator = true) (hhead : ∀ x ∈ rest.head?, isSeparator x = false) :
    (gap ++ rest).dropWhile isSeparator = rest := by
  rw [List.dropWhile_append_of_pos (List.all_eq_true.1 hgap)]
  cases rest with
  | nil => rfl
  | cons x rest => exact List.dropWhile_cons_of_neg (by rw [hhead x rfl]; exact Bool.false_ne_true)

/-- The word `else` is a token of its own where something follows that ends it. -/
theorem scan_else {after : List Char} (h : Reader.endsElse after = true) :
    scan ('e' :: 'l' :: 's' :: 'e' :: after) = (.name, 4) := by
  have hafter : after.takeWhile isNameChar = [] := by
    cases after with
    | nil => rfl
    | cons x after =>
      refine List.takeWhile_cons_of_neg fun hx => ?_
      simp only [Reader.endsElse, Bool.or_eq_true, beq_iff_eq] at h
      rcases h with (hblank | rfl) | rfl
      · rw [isNameChar, hblank] at hx
        cases hx
      · revert hx
        decide
      · revert hx
        decide
  have hname : nameLength ('e' :: 'l' :: 's' :: 'e' :: after) = 4 := by
    have hfour : ("else".toList ++ after).takeWhile isNameChar = "else".toList ++ after.takeWhile isNameChar :=
      List.takeWhile_append_of_pos (List.all_eq_true.1 (by decide))
    rw [hafter] at hfour
    exact congrArg List.length hfour
  rw [scan_word rfl (by decide) (by decide), scanWord, hname]
  rfl

theorem scan_closing {post : List Char} (hpost : post.all isPadding = true) (more : List Char) :
    (scan ((post ++ '}' :: '}' :: more).dropWhile isSeparator)).1 ∈
      [TokenKind.close, .closeTriple, .tilde, .invalid] := by
  induction post with
  | nil =>
    show (scan ('}' :: '}' :: more)).1 ∈ _
    by_cases hthird : more.head? = some '}'
    · obtain ⟨more, rfl⟩ := List.head?_eq_some_iff.1 hthird
      simp [scan]
    · simp [scan_close hthird]
  | cons x post ih =>
    obtain ⟨hx, hpost⟩ := Bool.and_eq_true_iff.1 (List.all_cons ▸ hpost)
    rw [List.cons_append]
    by_cases hseparator : isSeparator x = true
    · rw [List.dropWhile_cons_of_pos hseparator]
      exact ih hpost
    · rw [List.dropWhile_cons_of_neg hseparator]
      simp only [isPadding, Bool.or_eq_true, beq_iff_eq] at hx
      rcases hx with hblank | rfl
      · simp [scan_blank hblank]
      · simp [scan]

/-- Where white space and tildes precede two closing braces, no word comes next. -/
theorem peek_closing {post more : List Char} (hrest : c.rest = post ++ '}' :: '}' :: more)
    (hpost : post.all isPadding = true) : (peek c).kind ∈ [TokenKind.close, .closeTriple, .tilde, .invalid] := by
  have hscan := scan_closing hpost more
  rw [← hrest] at hscan
  exact hscan

end Lexer

namespace Reader

open Lexer

variable {source : String} {c d : Cursor} {tilde blanks after pre post more : List Char}

/-! ## Braces that begin with `else` -/

/-- The word `else` at braces, after a tilde or none and some white space. -/
structure ElseAt (c : Cursor) (tilde blanks after : List Char) : Prop where
  rest : c.rest = '{' :: '{' :: (tilde ++ (blanks ++ 'e' :: 'l' :: 's' :: 'e' :: after))
  tilde : tilde = [] ∨ tilde = ['~']
  blanks : blanks.all isBlank = true
  ends : endsElse after = true

theorem trimStart_else (h : blanks.all isBlank = true) (after : List Char) :
    trimStart (blanks ++ 'e' :: 'l' :: 's' :: 'e' :: after) = 'e' :: 'l' :: 's' :: 'e' :: after := by
  rw [trimStart, List.dropWhile_append_of_pos (List.all_eq_true.1 h)]
  exact List.dropWhile_cons_of_neg (by decide)

theorem classify_otherwise {inner : List Char} (h : classify inner = .otherwise) :
    ∃ tilde blanks after, inner = tilde ++ (blanks ++ 'e' :: 'l' :: 's' :: 'e' :: after) ∧
      (tilde = [] ∨ tilde = ['~']) ∧ blanks.all isBlank = true ∧ endsElse after = true := by
  unfold classify at h
  split at h
  · cases h
  · dsimp only at h
    split at h
    · cases h
    · split at h
      case h_3 after hafter =>
        split at h
        · rename_i hends
          have hsplit : (stripStart? ['~'] inner).getD inner =
              ((stripStart? ['~'] inner).getD inner).takeWhile isBlank ++ 'e' :: 'l' :: 's' :: 'e' :: after := by
            rw [← hafter]
            exact List.takeWhile_append_dropWhile.symm
          cases hstrip : stripStart? ['~'] inner with
          | none =>
            rw [hstrip] at hsplit
            exact ⟨[], _, after, hsplit, .inl rfl, List.all_takeWhile, hends⟩
          | some rest =>
            rw [hstrip] at hsplit
            refine ⟨['~'], rest.takeWhile isBlank, after, ?_, .inr rfl, List.all_takeWhile, hends⟩
            exact (stripStart?_eq_some hstrip).trans (congrArg ('~' :: ·) hsplit)
        · cases h
      all_goals cases h

theorem ElseAt.curlyAt_eq (h : ElseAt c tilde blanks after) : curlyAt c = .otherwise := by
  have hhead {y : Char} (hblank : isBlank y = false) (he : y ≠ 'e') :
      (blanks ++ 'e' :: 'l' :: 's' :: 'e' :: after).head? ≠ some y := by
    intro heq
    cases hblanks : blanks with
    | nil =>
      rw [hblanks] at heq
      exact he (Option.some.inj heq).symm
    | cons x rest =>
      have hall := h.blanks
      rw [hblanks] at heq hall
      rw [← Option.some.inj heq] at hblank
      rw [List.all_cons, hblank] at hall
      cases hall
  have hstrip : (stripStart? ['~'] (tilde ++ (blanks ++ 'e' :: 'l' :: 's' :: 'e' :: after))).getD
      (tilde ++ (blanks ++ 'e' :: 'l' :: 's' :: 'e' :: after)) = blanks ++ 'e' :: 'l' :: 's' :: 'e' :: after := by
    rcases h.tilde with rfl | rfl
    · cases hfound : stripStart? ['~'] ([] ++ (blanks ++ 'e' :: 'l' :: 's' :: 'e' :: after)) with
      | none => rfl
      | some rest =>
        have heq := congrArg List.head? (stripStart?_eq_some hfound)
        exact absurd heq (hhead (by decide) (by decide))
    · rfl
  have hfirst : (tilde ++ (blanks ++ 'e' :: 'l' :: 's' :: 'e' :: after)).head? ≠ some '{' := by
    rcases h.tilde with rfl | rfl
    · exact hhead (by decide) (by decide)
    · exact fun heq => absurd (Option.some.inj heq) (by decide)
  rw [curlyAt, h.rest]
  show classify (tilde ++ (blanks ++ 'e' :: 'l' :: 's' :: 'e' :: after)) = _
  rw [classify, if_neg hfirst]
  dsimp only
  rw [hstrip, if_neg (hhead (by decide) (by decide)), trimStart_else h.blanks]
  exact if_pos h.ends

/-- Braces begin with `else` where the word follows a tilde or none and some white space, and is ended. -/
theorem curlyAt_eq_otherwise_iff (hopen : c.startsWith "\x7b\x7b" = true) :
    curlyAt c = .otherwise ↔ ∃ tilde blanks after, ElseAt c tilde blanks after := by
  constructor
  · intro h
    obtain ⟨inner, hrest⟩ := List.isPrefixOf_iff_prefix.1 hopen
    have hdrop : c.rest.drop 2 = inner := by
      rw [← hrest]
      rfl
    rw [curlyAt, hdrop] at h
    obtain ⟨tilde, blanks, after, hinner, htilde, hblanks, hends⟩ := classify_otherwise h
    exact ⟨tilde, blanks, after, by rw [← hrest, hinner]; rfl, htilde, hblanks, hends⟩
  · rintro ⟨tilde, blanks, after, h⟩
    exact h.curlyAt_eq

/-! ## The token that is taken for `else` -/

/-- The token at white space before `else`: the word, if the white space separates tokens, and otherwise the first
character that does not. -/
inductive Taken (blanks after : List Char) (l : Lexeme) : Prop
  | word : blanks.all isSeparator = true → l.token.kind = .name → l.token.text = "else" → l.after.rest = after →
      Taken blanks after l
  | cut {gap more : List Char} {x : Char} : blanks = gap ++ x :: more → gap.all isSeparator = true →
      isSeparator x = false → l.token.kind = .invalid → l.token.text = String.ofList [x] →
      l.after.rest = more ++ 'e' :: 'l' :: 's' :: 'e' :: after → Taken blanks after l

theorem taken_next (hrest : d.rest = blanks ++ 'e' :: 'l' :: 's' :: 'e' :: after)
    (hblanks : blanks.all isBlank = true) (hends : endsElse after = true) : Taken blanks after (next d) := by
  rcases separated_or_cut blanks with hall | ⟨gap, x, more, rfl, hgap, hx⟩
  · have hdrop : d.rest.dropWhile isSeparator = 'e' :: 'l' :: 's' :: 'e' :: after := by
      rw [hrest]
      exact dropWhile_gap hall fun y hy => by cases hy; rfl
    obtain ⟨hkind, htext, hafter⟩ := next_of_scan hdrop (scan_else hends)
    exact .word hall hkind htext hafter
  · have hblank : isBlank x = true := List.all_eq_true.1 hblanks x (by simp)
    have hdrop : d.rest.dropWhile isSeparator = x :: (more ++ 'e' :: 'l' :: 's' :: 'e' :: after) := by
      rw [hrest, List.append_assoc]
      exact dropWhile_gap hgap fun y hy => by cases hy; exact hx
    obtain ⟨hkind, htext, hafter⟩ := next_of_scan hdrop (scan_blank hblank _)
    exact .cut rfl hgap hx hkind htext hafter

theorem Taken.kind_ne {l : Lexeme} {kind : TokenKind} (h : Taken blanks after l) (hname : kind ≠ .name)
    (hinvalid : kind ≠ .invalid) : l.token.kind ≠ kind := by
  cases h with
  | word _ hkind => exact hkind ▸ hname.symm
  | cut _ _ _ hkind => exact hkind ▸ hinvalid.symm

theorem tokens_cons (h : (next d).token.kind ≠ .eof) : tokens d = (next d).token :: tokens (next d).after := by
  rw [tokens, dif_neg h]

/-- The tilde at the front of braces is a token, and is passed over. -/
theorem ElseAt.skip_tilde (h : ElseAt c tilde blanks after) :
    (skip .tilde (c.advance 2)).rest = blanks ++ 'e' :: 'l' :: 's' :: 'e' :: after ∧
      ∃ front, tokens (c.advance 2) = front ++ tokens (skip .tilde (c.advance 2)) ∧
        front.map (·.kind) = tilde.map fun _ => .tilde := by
  have hrest : (c.advance 2).rest = tilde ++ (blanks ++ 'e' :: 'l' :: 's' :: 'e' :: after) := by
    rw [Cursor.advance, h.rest]
    rfl
  rcases h.tilde with rfl | rfl
  · have hkind : (next (c.advance 2)).token.kind ≠ .tilde :=
      (taken_next hrest h.blanks h.ends).kind_ne (by decide) (by decide)
    rw [skip, if_neg hkind]
    exact ⟨hrest, [], rfl, rfl⟩
  · have hdrop : (c.advance 2).rest.dropWhile isSeparator =
        '~' :: (blanks ++ 'e' :: 'l' :: 's' :: 'e' :: after) := by
      rw [hrest]
      rfl
    obtain ⟨hkind, -, hafter⟩ := next_of_scan hdrop (scan_mark rfl)
    rw [skip, if_pos hkind, tokens_cons (by rw [hkind]; decide)]
    exact ⟨hafter, [(next (c.advance 2)).token], rfl, by rw [List.map_singleton, hkind]; rfl⟩

theorem ElseAt.taken (h : ElseAt c tilde blanks after) : Taken blanks after (next (skip .tilde (c.advance 2))) :=
  taken_next h.skip_tilde.1 h.blanks h.ends

/-! ## What follows `else` -/

/-- An invocation begins with none of the tokens that can end braces, and not with an invalid one. -/
theorem kind_of_readInvocationAt {i : Invocation} (h : readInvocationAt c = .ok (i, d)) :
    (peek c).kind ∉ [TokenKind.close, .closeTriple, .tilde, .invalid] := by
  obtain ⟨⟨callee, after⟩, hcallee, -⟩ := bind_ok h
  unfold readExpr readExprWith at hcallee
  dsimp only at hcallee
  have hkind : (next c).token.kind = (peek c).kind := rfl
  rw [← hkind]
  split at hcallee
  case h_6 => cases hcallee
  all_goals
    rename_i heq
    rw [heq]
    decide

theorem padding_lead (htilde : tilde = [] ∨ tilde = ['~']) (hblanks : blanks.all isBlank = true) :
    (tilde ++ blanks).all isPadding = true := by
  have hblanks : blanks.all isPadding = true :=
    List.all_eq_true.2 fun x hx => by rw [isPadding, List.all_eq_true.1 hblanks x hx, Bool.true_or]
  rw [List.all_append, hblanks, Bool.and_true]
  rcases htilde with rfl | rfl <;> rfl

theorem separated_lead (htilde : tilde = [] ∨ tilde = ['~']) (hblanks : blanks.all isBlank = true) :
    (tilde ++ blanks).all isSeparated = blanks.all isSeparator := by
  have hsame : ∀ x ∈ blanks, isSeparated x = isSeparator x := by
    intro x hx
    have hne : x ≠ '~' := by
      rintro rfl
      exact absurd (List.all_eq_true.1 hblanks _ hx) (by decide)
    rw [isSeparated, beq_eq_false_iff_ne.2 hne, Bool.or_false]
  have hblanks : blanks.all isSeparated = blanks.all isSeparator := by
    rw [Bool.eq_iff_iff, List.all_eq_true, List.all_eq_true]
    exact forall₂_congr fun x hx => by rw [hsame x hx]
  rw [List.all_append, hblanks]
  rcases htilde with rfl | rfl <;> rfl

theorem head?_padded {y : Char} (hpre : pre.all isPadding = true) (hy : isPadding y = false) (hne : y ≠ 'e') :
    (pre ++ 'e' :: more).head? ≠ some y := by
  intro heq
  cases pre with
  | nil => exact hne (Option.some.inj heq).symm
  | cons x pre =>
    rw [← Option.some.inj heq] at hy
    rw [List.all_cons, hy] at hpre
    cases hpre

theorem strip_padded (hpre : pre.all isPadding = true) (more : List Char) : ∃ u, u.all isPadding = true ∧
    (stripStart? ['~'] (pre ++ 'e' :: more)).getD (pre ++ 'e' :: more) = u ++ 'e' :: more := by
  cases hstrip : stripStart? ['~'] (pre ++ 'e' :: more) with
  | none => exact ⟨pre, hpre, rfl⟩
  | some rest =>
    have heq := stripStart?_eq_some hstrip
    cases pre with
    | nil => cases heq
    | cons x pre =>
      injection heq with _ heq
      exact ⟨pre, (Bool.and_eq_true_iff.1 (List.all_cons ▸ hpre)).2, heq.symm⟩

theorem trimStart_padded (hpre : pre.all isPadding = true) (more : List Char) :
    ∃ u, u.all isPadding = true ∧ trimStart (pre ++ 'e' :: more) = u ++ 'e' :: more := by
  induction pre with
  | nil => exact ⟨[], rfl, List.dropWhile_cons_of_neg (by decide)⟩
  | cons x pre ih =>
    by_cases hx : isBlank x = true
    · obtain ⟨u, hu, htrim⟩ := ih (Bool.and_eq_true_iff.1 (List.all_cons ▸ hpre)).2
      exact ⟨u, hu, (List.dropWhile_cons_of_pos hx).trans htrim⟩
    · exact ⟨x :: pre, hpre, List.dropWhile_cons_of_neg hx⟩

/-- Braces with nothing but white space and tildes before `else` begin with `else`, or they are read as a mustache. -/
theorem curlyAt_padded (hrest : c.rest = '{' :: '{' :: (pre ++ 'e' :: 'l' :: 's' :: 'e' :: more))
    (hpre : pre.all isPadding = true) : curlyAt c = .otherwise ∨ curlyAt c = .mustache := by
  rw [curlyAt, hrest]
  show classify (pre ++ 'e' :: 'l' :: 's' :: 'e' :: more) = _ ∨ classify (pre ++ 'e' :: 'l' :: 's' :: 'e' :: more) = _
  obtain ⟨u, hu, hstrip⟩ := strip_padded hpre ('l' :: 's' :: 'e' :: more)
  obtain ⟨v, hv, htrim⟩ := trimStart_padded hu ('l' :: 's' :: 'e' :: more)
  have hhead {y : Char} {rest : List Char} (hy : isPadding y = false) (hne : y ≠ 'e')
      (heq : trimStart (u ++ 'e' :: 'l' :: 's' :: 'e' :: more) = y :: rest) : False :=
    head?_padded hv hy hne (congrArg List.head? (htrim.symm.trans heq))
  unfold classify
  split
  · exact .inr rfl
  · dsimp only
    rw [hstrip, if_neg (head?_padded hu (by decide) (by decide))]
    split
    · exact absurd ‹_› (hhead (by decide) (by decide))
    · exact absurd ‹_› (hhead (by decide) (by decide))
    · split
      · exact .inl rfl
      · exact .inr rfl
    · exact .inr rfl

/-- There is one way to part a text after the padding at its front. -/
theorem padding_inj {x y : Char} {u v : List Char} (hpre : pre.all isPadding = true)
    (hpost : post.all isPadding = true) (hx : isPadding x = false) (hy : isPadding y = false)
    (h : pre ++ x :: u = post ++ y :: v) : pre = post ∧ x = y ∧ u = v := by
  have htake {cs rest : List Char} {z : Char} (hcs : cs.all isPadding = true) (hz : isPadding z = false) :
      (cs ++ z :: rest).takeWhile isPadding = cs := by
    rw [List.takeWhile_append_of_pos (List.all_eq_true.1 hcs),
      List.takeWhile_cons_of_neg (by rw [hz]; exact Bool.false_ne_true), List.append_nil]
  have heq : pre = post := by rw [← htake hpre hx, h, htake hpost hy]
  rw [heq] at h
  exact ⟨heq, List.cons.inj (List.append_cancel_left h)⟩

/-- Where an arm ends at braces that hold `else` with nothing but white space and tildes before it, the braces begin
with `else`. -/
theorem ArmEnds.elseAt {b : Block} (h : ArmEnds source b c)
    (hrest : c.rest = '{' :: '{' :: (pre ++ 'e' :: 'l' :: 's' :: 'e' :: more))
    (hpre : pre.all isPadding = true) : ∃ tilde blanks, pre = tilde ++ blanks ∧ ElseAt c tilde blanks more := by
  rcases h.curly with hcurly | hcurly
  · obtain ⟨tilde, blanks, after, helse⟩ := (curlyAt_eq_otherwise_iff h.braces).1 hcurly
    have heq := hrest.symm.trans helse.rest
    rw [← List.append_assoc tilde] at heq
    injection heq with _ heq
    injection heq with _ heq
    obtain ⟨hlead, -, hmore⟩ := padding_inj hpre (padding_lead helse.tilde helse.blanks) (by decide)
      (by decide) heq
    cases hmore
    exact ⟨tilde, blanks, hlead, helse⟩
  · rcases curlyAt_padded hrest hpre with heq | heq <;> cases hcurly.symm.trans heq

/-- Where braces or a tilde are found after the token that is taken for `else`, it is the word. -/
theorem ElseAt.separated (h : ElseAt c tilde blanks after)
    (hfollowing : (peek (next (skip .tilde (c.advance 2))).after).kind = .close ∨
      (peek (next (skip .tilde (c.advance 2))).after).kind = .tilde) : blanks.all isSeparator = true := by
  cases h.taken with
  | word hall => exact hall
  | cut hblanks _ _ _ _ hrest =>
    have hmore := h.blanks
    rw [hblanks, List.all_append, List.all_cons, Bool.and_eq_true, Bool.and_eq_true] at hmore
    have htaken := taken_next hrest hmore.2.2 h.ends
    rcases hfollowing with hclose | htilde
    · exact absurd hclose (htaken.kind_ne (by decide) (by decide))
    · exact absurd htilde (htaken.kind_ne (by decide) (by decide))

/-- Where an invocation is read after the token that is taken for `else`, and only white space and tildes follow the
word, the token is not the word. -/
theorem ElseAt.cut (h : ElseAt c tilde blanks (post ++ '}' :: '}' :: more)) (hpost : post.all isPadding = true)
    {i : Invocation} (hread : readInvocationAt (next (skip .tilde (c.advance 2))).after = .ok (i, d)) :
    blanks.all isSeparator = false := by
  cases h.taken with
  | word _ _ _ hrest => exact absurd (peek_closing hrest hpost) (kind_of_readInvocationAt hread)
  | cut hblanks _ hx =>
    rw [hblanks, List.all_append, List.all_cons, hx, Bool.false_and, Bool.and_false]

/-! ## The blocks of a template -/

/-- The answer to an `else` that ends the first arm of a block, with nothing but white space and tildes around the
word: the block has another arm, and it is no block of its own exactly if what precedes the word separates tokens. -/
def AnswersElse (source : String) (program : Arm) (inverse : Option Arm) : Prop :=
  ∀ front pre post more : List Char,
    source.toList = front ++ '{' :: '{' :: (pre ++ 'e' :: 'l' :: 's' :: 'e' :: (post ++ '}' :: '}' :: more)) →
    byteLength front = program.span.stop → pre.all isPadding = true → post.all isPadding = true →
    ∃ arm, inverse = some arm ∧ (arm.chained = false ↔ pre.all isSeparated = true)

/-- All blocks in some statements, at any depth, answer. -/
def BlocksAnswer (source : String) (ss : List Statement) : Prop :=
  ∀ (body : List Statement) (b : Block), IsBody ss body → .block b ∈ body → AnswersElse source b.program b.inverse

theorem rest_of_on {front rest : List Char} (hc : c.On source) (hsource : source.toList = front ++ rest)
    (hpos : byteLength front = c.pos) : c.rest = rest := by
  obtain ⟨taken, hrest, htaken⟩ := hc
  have hsplit : taken ++ c.rest = front ++ rest := hrest.symm.trans hsource
  refine (append_inj_of_byteLength hsplit ?_).2
  rw [hpos, htaken]
  exact (Nat.zero_add _).symm

theorem ArmEnds.answers {b : Block} (h : ArmEnds source b c) : AnswersElse source b.program b.inverse := by
  intro front pre post more hsource hpos hpre hpost
  obtain ⟨tilde, blanks, rfl, hat⟩ := h.elseAt (rest_of_on h.on hsource (hpos.trans h.pos.symm)) hpre
  cases hinverse : b.inverse with
  | none => exact absurd hat.curlyAt_eq (h.bare hinverse)
  | some arm =>
    refine ⟨arm, rfl, ?_⟩
    rw [separated_lead hat.tilde hat.blanks]
    cases hchained : arm.chained with
    | false => exact ⟨fun _ => hat.separated (h.plain arm hinverse hchained), fun _ => rfl⟩
    | true =>
      obtain ⟨found, hread⟩ := h.chained arm hinverse hchained
      rw [hat.cut hpost hread]
      constructor <;> rintro ⟨⟩

/-- Every block of a template that was read answers an `else` after its first arm. -/
theorem blocksAnswer_of_parse {t : Template} (h : parse source = .ok t) : BlocksAnswer source t.body := by
  intro body b hbody hb
  obtain ⟨c, hends⟩ := ((parse_known source).ok t h).2.divided body b hbody hb
  exact hends.answers

/-- Braces are told to begin with `else` where the word follows a tilde or none and any white space; with other tildes
and white space before the word they are a mustache. The tokens of braces that begin with `else` are the tilde and then
the word, if that white space separates tokens, so that the token that is taken for the word is the word; otherwise it
is the first character that does not separate them, and is invalid. So in every block that is read, an `else` after the
first arm with nothing but white space and tildes around it opens an arm that is no block of its own exactly if what
precedes the word separates tokens. -/
theorem else_taken_iff_separated (source : String) :
    (∀ c, c.On source → c.startsWith "\x7b\x7b" = true →
      (curlyAt c = .otherwise ↔ ∃ tilde blanks after, ElseAt c tilde blanks after)) ∧
    (∀ c pre more, c.On source → c.rest = '{' :: '{' :: (pre ++ 'e' :: 'l' :: 's' :: 'e' :: more) →
      pre.all isPadding = true → curlyAt c = .otherwise ∨ curlyAt c = .mustache) ∧
    (∀ c tilde blanks after, c.On source → ElseAt c tilde blanks after →
      let l := next (skip .tilde (c.advance 2))
      Taken blanks after l ∧ ∃ front, tokens (c.advance 2) = front ++ l.token :: tokens l.after ∧
        front.map (·.kind) = tilde.map fun _ => .tilde) ∧
    ∀ t, parse source = .ok t → BlocksAnswer source t.body := by
  refine ⟨fun c _ hopen => curlyAt_eq_otherwise_iff hopen, fun c pre more _ => curlyAt_padded,
    fun c tilde blanks after _ h => ?_, fun t h => blocksAnswer_of_parse h⟩
  obtain ⟨-, front, htokens, hfront⟩ := h.skip_tilde
  rw [tokens_cons (h.taken.kind_ne (by decide) (by decide))] at htokens
  exact ⟨h.taken, front, htokens, hfront⟩

/-- With a tilde and a space on either side of the word. -/
theorem else_taken_between_tildes :
    let source := "\x7b\x7b#if a\x7d\x7dx\x7b\x7b~ else ~\x7d\x7dy\x7b\x7b/if\x7d\x7d"
    let c : Cursor := ⟨10, "\x7b\x7b~ else ~\x7d\x7dy\x7b\x7b/if\x7d\x7d".toList⟩
    c.On source ∧ ElseAt c ['~'] [' '] " ~\x7d\x7dy\x7b\x7b/if\x7d\x7d".toList ∧
      Taken [' '] " ~\x7d\x7dy\x7b\x7b/if\x7d\x7d".toList (next (skip .tilde (c.advance 2))) ∧
      ∃ t b arm, parse source = .ok t ∧ t.body = [.block b] ∧ b.inverse = some arm ∧ arm.chained = false := by
  obtain ⟨t, b, hparse, hbody, hstop⟩ :
      ∃ t b, parse "\x7b\x7b#if a\x7d\x7dx\x7b\x7b~ else ~\x7d\x7dy\x7b\x7b/if\x7d\x7d" = .ok t ∧
        t.body = [.block b] ∧ b.program.span.stop = 10 := ⟨_, _, rfl, rfl, rfl⟩
  intro source c
  have hc : c.On source := ⟨"\x7b\x7b#if a\x7d\x7dx".toList, by decide, by decide⟩
  have hat : ElseAt c ['~'] [' '] " ~\x7d\x7dy\x7b\x7b/if\x7d\x7d".toList :=
    ⟨by decide, .inr rfl, by decide, by decide⟩
  obtain ⟨-, -, htaken, hanswer⟩ := else_taken_iff_separated source
  obtain ⟨arm, harm, hchained⟩ := hanswer t hparse [.block b] b (hbody ▸ .self _) (List.mem_singleton.2 rfl)
    "\x7b\x7b#if a\x7d\x7dx".toList ['~', ' '] [' ', '~'] "y\x7b\x7b/if\x7d\x7d".toList
    (by decide) (by rw [hstop]; decide) (by decide) (by decide)
  exact ⟨hc, hat, (htaken c _ _ _ hc hat).1, t, b, arm, hparse, hbody, harm, hchained.2 (by decide)⟩

/-- White space that does not separate tokens is taken for the word, and the word for the callee of a block. -/
theorem else_after_vertical_tab_chained :
    let source := "\x7b\x7b#if a\x7d\x7dx\x7b\x7b\x0belse\x7d\x7dy\x7b\x7b/if\x7d\x7d"
    let c : Cursor := ⟨10, "\x7b\x7b\x0belse\x7d\x7dy\x7b\x7b/if\x7d\x7d".toList⟩
    curlyAt c = .otherwise ∧ (next (skip .tilde (c.advance 2))).token.kind = .invalid ∧
      ∃ t b arm, parse source = .ok t ∧ t.body = [.block b] ∧ b.inverse = some arm ∧ arm.chained = true :=
  ⟨by decide, by decide, _, _, _, rfl, rfl, rfl, rfl⟩

end Reader

end TypedTemplate.Template
