/-
The walk through braces. At a place between characters a slice is what follows the place, so the walk sees what is read
by characters; and it moves on as reading does, since what it passes over by bytes is made of characters of one byte
each. Every turn of a loop passes over a character, and no loop is given fewer turns than characters are left.
-/
import TypedTemplate.Proofs.Template.Reader.Curly
import TypedTemplate.Proofs.Template.Walk.Basic

namespace TypedTemplate.Template.Walk

open Text Lexer Reader

variable {source : String} {c d : Cursor} {kind : TokenKind}

/-! ## Slices -/

theorem ok_bind {α β : Type} (a : α) (f : α → Answer β) : (Except.ok a >>= f) = f a := rfl

/-- What a reading by characters answers, with a position for the place after what was read. -/
abbrev land {α : Type} : Read (α × Cursor) → Answer (α × Nat) := carry fun found => (found.1, found.2.pos)

/-- A walk follows a reading if their first parts do and they go on alike. -/
theorem carry_bind {α α' β β' : Type} {φ : α → α'} {ψ : β → β'} {r : Read α} {g : α → Read β} {f : α' → Answer β'}
    (h : ∀ a, r = .ok a → f (φ a) = carry ψ (g a)) : carry φ r >>= f = carry ψ (r >>= g) := by
  cases r with
  | ok a => exact h a rfl
  | error e => rfl

theorem cut_eq {text s : String} {start stop : Nat} (h : slice text start stop = some s) :
    cut text start stop = .ok s := by
  rw [cut, h]
  rfl

theorem look_eq (hc : c.On source) : look source c.pos = .ok c := by
  obtain ⟨taken, hrest, hpos⟩ := hc
  have hat : Cursor.at? source c.pos = some c := by
    have hlength : c.pos = byteLength taken := by simpa [Cursor.ofText] using hpos
    rw [Cursor.at?, show source.toList = taken ++ c.rest from hrest, hlength, dropBytes_append, Option.map_some,
      ← hlength]
  rw [look, hat]
  rfl

theorem size_of_on (hc : c.On source) : size source = c.stop := by
  obtain ⟨taken, hrest, hpos⟩ := hc
  rw [size_eq_byteLength, show source.toList = taken ++ c.rest from hrest, byteLength_append, Cursor.stop, hpos]
  simp [Cursor.ofText]

theorem length_lt_of_bytes {n : Nat} (hc : c.On source) (hn : size source - c.pos < n) : c.rest.length < n := by
  have := length_le_byteLength c.rest
  rw [size_of_on hc, Cursor.stop] at hn
  omega

theorem length_lt_bound (hc : c.On source) : c.rest.length < bound source :=
  length_lt_of_bytes hc (by rw [bound]; omega)

theorem le_pos_iff_atEnd (hc : c.On source) : size source ≤ c.pos ↔ c.atEnd = true := by
  rw [size_of_on hc, Cursor.stop, Cursor.atEnd, List.isEmpty_iff]
  constructor
  · intro h
    have := length_le_byteLength c.rest
    exact List.length_eq_zero_iff.1 (by omega)
  · intro h
    simp [h]

theorem skipBlank_eq (hc : c.On source) : skipBlank source c.pos = .ok (c.skipWhile isBlank).pos := by
  have hsplit := congrArg byteLength (List.takeWhile_append_dropWhile (p := isBlank) (l := c.rest))
  rw [byteLength_append] at hsplit
  rw [skipBlank, look_eq hc, ok_bind]
  refine congrArg Except.ok (congrArg (c.pos + ·) ?_)
  show byteLength c.rest - byteLength (c.rest.dropWhile isBlank) = byteLength (c.rest.takeWhile isBlank)
  omega

theorem takeRun_eq (hc : c.On source) (p : Char → Bool) :
    takeRun source p c.pos = .ok (c.run p, (c.skipWhile p).pos) := by
  rw [takeRun, look_eq hc, ok_bind]
  exact congrArg (· >>= _) (cut_eq (hc.slice (c.passes_skipWhile p)))

/-! ## Tokens -/

theorem lex_eq (hc : c.On source) : lex source c.pos = .ok (next c).token := by
  rw [lex, look_eq hc]
  rfl

theorem textOf_eq (hc : c.On source) : textOf source (next c).token = .ok (next c).token.text :=
  cut_eq (spelled_token hc)

theorem nameOf_eq (hc : c.On source) : nameOf source (next c).token = .ok (Reader.nameOf (next c).token) := by
  rw [nameOf, textOf_eq hc]
  rfl

theorem expect_eq (hc : c.On source) : expect source kind c.pos = land (Reader.expect kind c) := by
  rw [expect, lex_eq hc, ok_bind, Reader.expect]
  split
  · rfl
  · rfl

theorem skip_eq (hc : c.On source) : skip source kind c.pos = .ok (Reader.skip kind c).pos := by
  rw [skip, lex_eq hc, ok_bind, Reader.skip]
  split
  · rfl
  · rfl

theorem expectClose_eq (hc : c.On source) (trusting : Bool) :
    expectClose source trusting c.pos = carry Cursor.pos (Reader.expectClose trusting c) := by
  unfold expectClose
  rw [lex_eq hc, ok_bind]
  split
  all_goals unfold Reader.expectClose
  · rename_i hkind
    simp only [hkind]
    rfl
  · rename_i hkind
    simp only [hkind]
    rfl
  · rename_i hkind
    simp only [hkind]
    have hpasses := passes_token c
    rw [token_text hkind rfl] at hpasses
    have hrest : (next c).before.rest = "\x7d\x7d".toList ++ '\x7d' :: (next c).after.rest := by
      rw [hpasses.rest]
      rfl
    exact congrArg Except.ok (Cursor.passes_of_rest hrest rfl).pos.symm
  · simp only
    rfl

/-! ## Expressions -/

theorem token_stop (c : Cursor) : (next c).token.span.stop = (next c).after.pos := rfl

theorem segments_eq : ∀ {n m stop : Nat} {c : Cursor}, c.On source → c.rest.length < n → c.rest.length < m →
    segments source n stop c.pos = land (readSegments m stop c)
  | 0, _, _, _, _, hn, _ => absurd hn (Nat.not_lt_zero _)
  | _ + 1, 0, _, _, _, _, hm => absurd hm (Nat.not_lt_zero _)
  | n + 1, m + 1, stop, c, hc, hn, hm => by
    rw [segments, readSegments, lex_eq hc, ok_bind]
    dsimp only
    split
    · rfl
    · rename_i hdot
      obtain ⟨hkind, -⟩ := not_or.1 hdot
      have hlt := next_length_lt (not_not.1 hkind) (by decide)
      have hle := (reaches_after (next c).after).length_le
      have hafter := hc.reaches (reaches_after c)
      rw [token_stop, lex_eq hafter, ok_bind]
      split
      · rfl
      · rw [nameOf_eq hafter, ok_bind, token_stop, segments_eq (m := m) (hafter.reaches (reaches_after _)) (by omega)
          (by omega)]
        exact carry_bind fun _ _ => rfl

/-- The path from `a` on whose head is the token after `b`. It is written from its start to the end of its tail. -/
theorem path_eq {a b : Cursor} {sigil text : String} {head : PathHead} (ha : a.On source)
    (hfront : a.Passes (sigil ++ text) (next b).after) (hspan : head.span = (next b).token.span) :
    path source a.pos head (next b).after.pos = land (readPath a.pos sigil head text (next b).after) := by
  have hafter := ha.reaches hfront.reaches
  rw [path, readPath, segments_eq hafter (length_lt_bound hafter) (Nat.lt_succ_self _)]
  refine carry_bind fun found hfound => ?_
  rw [hspan] at hfound
  have h := (readSegments_yields hafter (Nat.lt_succ_self _)).ok found hfound
  have hall := hfront.trans h.passes
  rw [← foldl_dotted] at hall
  have hstop : (found.1.getLast?.map (·.span.stop)).getD head.span.stop = found.2.pos := by
    rw [← h.stop, hspan, token_stop]
    simp [Span.lastStop, List.getLast?_map, Function.comp_def]
  dsimp only
  rw [hstop, cut_eq (ha.slice hall)]
  rfl

theorem word_eq (hc : c.On source) : word source (next c).token (next c).after.pos =
    land (readWord (next c).token (next c).after) := by
  have hafter := hc.reaches (reaches_after c)
  unfold word
  rw [textOf_eq hc, ok_bind, lex_eq hafter, ok_bind]
  split
  all_goals
    rename_i hliteral
    unfold readWord
    dsimp only [peek]
    rw [hliteral]
  · rfl
  · dsimp only
    have hfront := passes_token c
    rw [← String.empty_append (s := (next c).token.text)] at hfront
    refine path_eq (hc.reaches (reaches_before c)) hfront ?_
    split <;> rfl

theorem argument_eq (hc : c.On source) (hkind : (next c).token.kind = .atSign) :
    argument source (next c).token (next c).after.pos = land (readArgument (next c).token (next c).after) := by
  have hafter := hc.reaches (reaches_after c)
  unfold argument readArgument
  rw [lex_eq hafter, ok_bind]
  dsimp only
  split
  · rfl
  · rename_i hname
    obtain ⟨-, hstart⟩ := not_or.1 hname
    rw [nameOf_eq hafter, ok_bind]
    exact path_eq (hc.reaches (reaches_before c)) (passes_argument hkind (not_not.1 hstart)) rfl

theorem paramNames_eq : ∀ {n m : Nat} {c : Cursor}, c.On source → c.rest.length < n → c.rest.length < m →
    paramNames source n c.pos = land (readParamNames m c)
  | 0, _, _, _, hn, _ => absurd hn (Nat.not_lt_zero _)
  | _ + 1, 0, _, _, _, hm => absurd hm (Nat.not_lt_zero _)
  | n + 1, m + 1, c, hc, hn, hm => by
    unfold paramNames
    rw [lex_eq hc, ok_bind]
    dsimp only
    split
    all_goals unfold readParamNames
    · rename_i hkind
      have hlt := next_length_lt hkind (by decide)
      simp only [hkind]
      rw [nameOf_eq hc, ok_bind, token_stop,
        paramNames_eq (m := m) (hc.reaches (reaches_after c)) (by omega) (by omega)]
      exact carry_bind fun _ _ => rfl
    · rename_i hkind
      simp only [hkind]
      rfl
    · simp only
      rfl

theorem params_eq (hc : c.On source) : params source c.pos = land (readParams c) := by
  have hafter := hc.reaches (reaches_after c)
  have hbar := (reaches_after c).trans (reaches_after (next c).after)
  have hon := hc.reaches hbar
  unfold params readParams
  rw [lex_eq hc, ok_bind, token_stop, lex_eq hafter, ok_bind, token_stop,
    paramNames_eq hon (length_lt_bound hon) (Nat.lt_succ_of_le hbar.length_le)]
  refine carry_bind fun found _ => ?_
  dsimp only
  split
  · rfl
  · rfl

/-- A walk through expressions that follows a reader of them, at places with fewer than `n` characters left. -/
def Follows (source : String) (n : Nat) (walk : Nat → Answer (Expr × Nat)) (expr : Cursor → Read (Expr × Cursor)) :
    Prop :=
  ∀ {c : Cursor}, c.On source → c.rest.length < n → walk c.pos = land (expr c)

section

variable {expr : Cursor → Read (Expr × Cursor)} {walk : Nat → Answer (Expr × Nat)} {k : Nat}

theorem arguments_eq (hexpr : YieldsExpr source k expr) (hwalk : Follows source k walk expr) :
    ∀ {n m : Nat} {last : Option Nat} {c : Cursor}, c.On source → c.rest.length < n → c.rest.length < m →
      c.rest.length < k → arguments source walk n last c.pos = land (readArguments expr m last c)
  | 0, _, _, _, _, hn, _, _ => absurd hn (Nat.not_lt_zero _)
  | _ + 1, 0, _, _, _, _, hm, _ => absurd hm (Nat.not_lt_zero _)
  | n + 1, m + 1, last, c, hc, hn, hm, hk => by
    have hafter := hc.reaches (reaches_after c)
    have hsecond := (reaches_after c).trans (reaches_after (next c).after)
    have hle := hsecond.length_le
    unfold arguments
    rw [lex_eq hc, ok_bind]
    dsimp only
    split
    all_goals unfold readArguments
    case h_6 =>
      -- what is read by characters goes the same way
      simp only
      rw [token_stop, lex_eq hafter, ok_bind, textOf_eq hc, ok_bind]
      split
      · rw [token_stop, hwalk (hc.reaches hsecond) (by omega)]
        refine carry_bind fun value hv => ?_
        have hvalue := (hexpr (hc.reaches hsecond) (by omega)).ok value hv
        have hlt := hvalue.length_lt
        dsimp only
        rw [arguments_eq hexpr hwalk (m := m) (hc.reaches (hsecond.trans hvalue.reaches)) (by omega) (by omega)
          (by omega)]
        exact carry_bind fun _ _ => rfl
      · split
        · rw [params_eq hc]
          exact carry_bind fun _ _ => rfl
        · cases last with
          | some stop => rfl
          | none =>
            dsimp only
            rw [hwalk hc hk]
            refine carry_bind fun value hv => ?_
            have hvalue := (hexpr hc hk).ok value hv
            have hlt := hvalue.length_lt
            dsimp only
            rw [arguments_eq hexpr hwalk (m := m) (hc.reaches hvalue.reaches) (by omega) (by omega) (by omega)]
            exact carry_bind fun _ _ => rfl
    all_goals
      rename_i hkind
      simp only [hkind]
      rfl

theorem invocation_eq (hexpr : YieldsExpr source k expr) (hwalk : Follows source k walk expr) (hc : c.On source)
    (hk : c.rest.length < k) : invocation source walk c.pos = land (readInvocation expr c) := by
  unfold invocation readInvocation
  rw [hwalk hc hk]
  refine carry_bind fun callee h => ?_
  have hcallee := (hexpr hc hk).ok callee h
  have hlt := hcallee.length_lt
  have hd := hc.reaches hcallee.reaches
  dsimp only
  rw [arguments_eq hexpr hwalk hd (length_lt_bound hd) (Nat.lt_succ_self _) (by omega)]
  exact carry_bind fun _ _ => rfl

end

/-- A string that is closed ends with its quote. -/
theorem take_stringLength (quote : Char) (cs : List Char) (h : (stringLength quote cs).2 = true) :
    ∃ body, cs.take (stringLength quote cs).1 = body ++ [quote] := by
  fun_induction stringLength quote cs with
  | case1 => cases h
  | case2 c => exact ⟨[], by simpa using h⟩
  | case3 d rest => exact ⟨[], rfl⟩
  | case4 rest => cases h
  | case5 d rest _ n closed hlength _ ih =>
    obtain ⟨body, hbody⟩ := ih (by rw [hlength]; exact h)
    rw [hlength] at hbody
    exact ⟨'\\' :: d :: body, by rw [List.take_succ_cons, List.take_succ_cons, hbody]; rfl⟩
  | case6 c d rest _ _ n closed hlength ih =>
    obtain ⟨body, hbody⟩ := ih (by rw [hlength]; exact h)
    rw [hlength] at hbody
    exact ⟨c :: body, by rw [List.take_succ_cons, hbody]; rfl⟩

/-- A string stands between quotes of one byte each. -/
theorem scan_string {cs : List Char} (h : (scan cs).1 = .string) :
    ∃ quote body, quote.utf8Size = 1 ∧ cs.take (scan cs).2 = quote :: (body ++ [quote]) := by
  unfold scan at h ⊢
  split at h
  case h_13 quote cs _ _ _ _ _ _ _ _ _ _ _ =>
    simp only
    split at h
    · rename_i hquote
      dsimp only at h
      split at h
      · rename_i hclosed
        obtain ⟨body, hbody⟩ := take_stringLength quote cs hclosed
        refine ⟨quote, body, ?_, ?_⟩
        · rcases hquote with rfl | rfl <;> rfl
        · rw [if_pos hquote, List.take_succ_cons, hbody]
      · cases h
    · unfold scanWord at h
      split at h
      · cases h
      · split at h <;> cases h
  all_goals cases h

theorem token_string (h : (next c).token.kind = .string) :
    ∃ quote body, quote.utf8Size = 1 ∧ (next c).token.text.toList = quote :: (body ++ [quote]) := by
  obtain ⟨quote, body, hsize, htext⟩ := scan_string h
  exact ⟨quote, body, hsize, by rw [← htext]; exact String.toList_ofList⟩

theorem stringValue_eq (hc : c.On source) (hkind : (next c).token.kind = .string) :
    stringValue source (next c).token = .ok (Reader.stringValue (next c).token.text) := by
  obtain ⟨quote, body, hsize, htext⟩ := token_string hkind
  have hlength : size (next c).token.text = 1 + byteLength body + 1 := by
    rw [size_eq_byteLength, htext, byteLength_cons, byteLength_append, byteLength_cons, hsize]
    rfl
  have hquote : slice (next c).token.text 0 1 = some (String.ofList [quote]) :=
    slice_eq_some_iff.2 ⟨[], body ++ [quote], by simp [htext], rfl, by simp [size_eq_byteLength, hsize]⟩
  have hbody : slice (next c).token.text 1 (1 + byteLength body) = some (String.ofList body) :=
    slice_eq_some_iff.2 ⟨[quote], [quote], by simp [htext], by simp [hsize], by simp [size_eq_byteLength]⟩
  rw [stringValue, textOf_eq hc, ok_bind, cut_eq hquote, ok_bind, hlength, Nat.add_sub_cancel, cut_eq hbody, ok_bind,
    Reader.stringValue, htext]
  simp only [List.dropLast_concat, String.toList_ofList]
  rfl
theorem expression_eq : ∀ {n m : Nat} {c : Cursor}, c.On source → c.rest.length < n → c.rest.length < m →
    expression source n c.pos = land (readExprWith m c)
  | 0, _, _, _, hn, _ => absurd hn (Nat.not_lt_zero _)
  | _ + 1, 0, _, _, _, hm => absurd hm (Nat.not_lt_zero _)
  | n + 1, m + 1, c, hc, hn, hm => by
    have hafter := hc.reaches (reaches_after c)
    unfold expression
    rw [lex_eq hc, ok_bind]
    dsimp only
    split
    all_goals unfold readExprWith
    · rename_i hkind
      have hlt := next_length_lt hkind (by decide)
      have hyields : YieldsExpr source c.rest.length (readExprWith m) :=
        fun hd hlt => readExprWith_yields m hd (by omega)
      have hwalk : Follows source c.rest.length (expression source n) (readExprWith m) :=
        fun hd hlt => expression_eq hd (by omega) (by omega)
      simp only [hkind]
      rw [token_stop, invocation_eq hyields hwalk hafter hlt]
      refine carry_bind fun i h => ?_
      have hi := (readInvocation_yields hyields hafter hlt).ok i h
      refine carry_bind fun _ _ => ?_
      rw [expect_eq (hafter.reaches hi.reaches)]
      exact carry_bind fun _ _ => rfl
    · rename_i hkind
      simp only [hkind]
      rw [stringValue_eq hc hkind]
      rfl
    · rename_i hkind
      simp only [hkind]
      rw [textOf_eq hc]
      rfl
    · rename_i hkind
      simp only [hkind]
      exact argument_eq hc hkind
    · rename_i hkind
      simp only [hkind]
      exact word_eq hc
    · simp only
      rfl

theorem readExpr_eq (hc : c.On source) : expression source (bound source) c.pos = land (readExpr c) :=
  expression_eq hc (length_lt_bound hc) (Nat.lt_succ_self _)

theorem invocationAt_eq (hc : c.On source) : invocationAt source c.pos = land (readInvocationAt c) :=
  invocation_eq (fun hc _ => readExpr_yields hc) (fun hc _ => readExpr_eq hc) hc (Nat.lt_succ_self _)

/-! ## Braces -/

/-- A word of one-byte characters is passed over by its length. -/
theorem pos_advance {word : String} (n : Nat) (h : c.startsWith word = true) (hlength : word.toList.length = n)
    (hsize : size word = n) : (c.advance n).pos = c.pos + n := by
  rw [(Cursor.passes_of_startsWith h hlength).pos, hsize]

theorem pos_head {x : Char} (h : c.rest.head? = some x) : (c.advance 1).pos = c.pos + x.utf8Size := by
  rw [(passes_head h).pos, size_eq_byteLength, String.toList_ofList]
  rfl

theorem curly_eq (hc : c.On source) (hopen : c.startsWith "\x7b\x7b" = true) :
    curly source c.pos = .ok (curlyAt c) := by
  have hdrop : dropBytes 2 c.rest = some (c.advance 2).rest := by
    rw [(Cursor.passes_of_startsWith hopen (n := 2) rfl).rest]
    exact dropBytes_append ['\x7b', '\x7b'] _
  rw [curly, look_eq hc, ok_bind, hdrop]
  rfl

theorem braces_eq (hc : c.On source) : braces source c.pos = .ok (curlySpan c) := by
  rw [braces, look_eq hc]
  rfl

theorem closeComment_none (hc : c.On source) (p : Nat) :
    closeComment source c.pos p none = land (.error (unclosedComment c)) := by
  rw [closeComment, size_of_on hc]
  rfl

/-- A comment that is closed by a word of one-byte characters is cut out of the text and passed over. -/
theorem closeComment_some {b : Cursor} {inside after : List Char} {word : String} {n : Nat} (hb : b.On source)
    (hrest : b.rest = inside ++ (word.toList ++ after)) (hlength : word.toList.length = n) (hsize : size word = n) :
    closeComment source c.pos b.pos (some (byteLength inside, n)) = land (.ok (commentOf c b inside n)) := by
  have hinside : b.Passes (String.ofList inside) (b.advance inside.length) :=
    Cursor.passes_of_rest (by rw [hrest, String.toList_ofList]) (by rw [String.toList_ofList])
  have hvalue := hb.slice hinside
  rw [hinside.pos, size_eq_byteLength, String.toList_ofList] at hvalue
  have hstop : (b.advance (inside.length + n)).pos = b.pos + byteLength inside + n := by
    rw [(Cursor.passes_of_split hrest hlength).pos, size_append, hsize, size_eq_byteLength, String.toList_ofList,
      Nat.add_assoc]
  rw [closeComment, cut_eq hvalue, ok_bind, commentOf, ← hstop]
  rfl

theorem comment_eq (hc : c.On source) (hopen : c.startsWith "<!--" = true) :
    comment source c.pos = land (readComment c) := by
  have hbody := hc.reaches (c.reaches_advance 4)
  unfold comment readComment
  rw [← pos_advance 4 hopen rfl rfl, look_eq hbody, ok_bind]
  dsimp only
  cases hsplit : splitAtFirst "-->".toList (c.advance 4).rest with
  | none => exact closeComment_none hc _
  | some found => exact closeComment_some hbody (splitAtFirst_eq_some hsplit) rfl rfl

theorem shortBody?_eq (rest : List Char) :
    shortBody? rest = (shortCommentBody? rest).map fun found => (byteLength found.1, found.2) := by
  unfold shortBody? shortCommentBody?
  rw [Option.map_map]
  refine congrArg (Option.map · _) (funext fun found => ?_)
  dsimp only [Function.comp]
  cases hstrip : stripEnd? ['~'] found.1 with
  | none => rfl
  | some front =>
    have hlength : byteLength found.1 - 1 = byteLength front := by
      rw [stripEnd?_eq_some hstrip, byteLength_append]
      rfl
    exact congrArg (Prod.mk · 3) hlength

theorem mustacheComment_eq (hc : c.On source) (hopen : c.startsWith "\x7b\x7b" = true) (hcurly : curlyAt c = .comment) :
    mustacheComment source c.pos = land (readMustacheComment c) := by
  obtain ⟨tilde, htilde, b, hb, hsign, hif⟩ := passes_commentSign hcurly
  have hinside := hc.reaches (c.reaches_advance 2)
  have hb := hinside.reaches hb.reaches
  have hbody := hb.reaches (b.reaches_advance 1)
  have hpos : (if (c.advance 2).startsWith "~" then (c.advance 2).pos + 1 else (c.advance 2).pos) = b.pos := by
    rw [hif]
    split
    · rename_i htilde
      exact (pos_advance 1 htilde rfl rfl).symm
    · rfl
  have hsizes : ∀ word ∈ commentClosings, size word = word.toList.length := by decide
  -- whatever closes the comment is made of characters of one byte
  have hclose {body : Cursor} {found : List Char × Nat} (hbody : body.On source)
      (hends : EndsComment body.rest found.1 found.2) :
      closeComment source c.pos body.pos (some (byteLength found.1, found.2)) =
        land (.ok (commentOf c body found.1 found.2)) := by
    obtain ⟨word, hword, after, hrest, hn⟩ := hends
    exact closeComment_some hbody hrest hn ((hsizes word hword).trans hn)
  unfold mustacheComment readMustacheComment
  rw [← pos_advance 2 hopen rfl rfl, look_eq hinside, ok_bind]
  dsimp only
  rw [hpos, ← hif, ← pos_advance 1 hsign rfl rfl, look_eq hbody, ok_bind]
  split
  · rename_i hlong
    have hon := hbody.reaches (Cursor.reaches_advance _ 2)
    rw [← pos_advance 2 hlong rfl rfl, look_eq hon, ok_bind]
    cases hfound : longCommentBody? ((b.advance 1).advance 2).rest with
    | none => exact closeComment_none hc _
    | some found => exact hclose hon (longCommentBody?_ends hfound)
  · rw [shortBody?_eq]
    cases hfound : shortCommentBody? (b.advance 1).rest with
    | none => exact closeComment_none hc _
    | some found => exact hclose hbody (shortCommentBody?_ends hfound)

theorem mustache_eq (hc : c.On source) (hopen : c.startsWith "\x7b\x7b" = true) :
    mustache source c.pos = land (readMustache c) := by
  unfold mustache readMustache
  rw [look_eq hc, ok_bind]
  dsimp only
  have hpos : (c.pos + if c.startsWith "\x7b\x7b\x7b" then 3 else 2) =
      (c.advance (if c.startsWith "\x7b\x7b\x7b" then 3 else 2)).pos := by
    split
    · rename_i htriple
      exact (pos_advance 3 htriple rfl rfl).symm
    · exact (pos_advance 2 hopen rfl rfl).symm
  have hinside := hc.reaches (c.reaches_advance (if c.startsWith "\x7b\x7b\x7b" then 3 else 2))
  have hskip := hinside.reaches (reaches_skip .tilde _)
  rw [hpos, skip_eq hinside, ok_bind, invocationAt_eq hskip]
  refine carry_bind fun i h => ?_
  have hi := (readInvocationAt_yields hskip).ok i h
  refine carry_bind fun _ _ => ?_
  have hafter := hskip.reaches hi.reaches
  dsimp only
  rw [skip_eq hafter, ok_bind, expectClose_eq (hafter.reaches (reaches_skip .tilde _))]
  exact carry_bind fun _ _ => rfl

end TypedTemplate.Template.Walk
