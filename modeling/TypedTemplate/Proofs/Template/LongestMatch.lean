/-
The longest token is taken. At every place of a text, after the separators, the token is the longest text there that
matches the patterns of some kind, where a number goes before a name of the same length. Where nothing matches, the
token is invalid and covers the longest text that a token could begin with, or one character.
-/
import TypedTemplate.Proofs.Template.Pattern
import TypedTemplate.Proofs.Template.Stream

namespace TypedTemplate.Template

open Text

namespace Lexer

open Pattern
open TokenKind (Begins ofMark? begins_of_mem nil_notMem_language)
open Reader (reaches_before passes_token)

/-! ## How far each token reaches -/

theorem length_le_takeWhile {p : Char → Bool} {v rest : List Char} (hv : v <+: rest) (hall : ∀ c ∈ v, p c = true) :
    v.length ≤ (rest.takeWhile p).length := by
  obtain ⟨more, rfl⟩ := hv
  rw [List.takeWhile_append_of_pos hall, List.length_append]
  exact Nat.le_add_right _ _

theorem take_length_takeWhile (p : Char → Bool) (cs : List Char) :
    cs.take (cs.takeWhile p).length = cs.takeWhile p :=
  (List.prefix_iff_eq_take.1 (List.takeWhile_prefix p)).symm

theorem take_nameLength (cs : List Char) : cs.take (nameLength cs) = cs.takeWhile isNameChar :=
  take_length_takeWhile isNameChar cs

theorem digits_take {cs : List Char} (h : digitCount cs ≠ 0) : Digits (cs.take (digitCount cs)) := by
  have htake : cs.take (digitCount cs) = cs.takeWhile Char.isDigit := take_length_takeWhile _ cs
  rw [htake]
  exact ⟨fun hnil => h (by rw [digitCount, hnil]; rfl), List.all_eq_true.1 (List.all_takeWhile)⟩

/-- The whole part of a number is all the digits that come first, if a character that is no digit follows. -/
theorem digitCount_append {ds more : List Char} (hds : Digits ds) (hmore : ∀ c ∈ more.head?, c.isDigit = false) :
    digitCount (ds ++ more) = ds.length := by
  have hnone : more.takeWhile Char.isDigit = [] := by
    cases more with
    | nil => rfl
    | cons c cs => simp [hmore c rfl]
  rw [digitCount, List.takeWhile_append_of_pos hds.2, hnone, List.append_nil]

/-- What `unsignedLength` takes: no digit, or digits alone, or digits with a fraction. -/
theorem unsignedLength_cases (cs : List Char) :
    (digitCount cs = 0 ∧ unsignedLength cs = 0) ∨
    (digitCount cs ≠ 0 ∧ unsignedLength cs = digitCount cs ∧
      ∀ rest, cs.drop (digitCount cs) = '.' :: rest → digitCount rest = 0) ∨
    (digitCount cs ≠ 0 ∧ ∃ rest, cs.drop (digitCount cs) = '.' :: rest ∧ digitCount rest ≠ 0 ∧
      unsignedLength cs = digitCount cs + (digitCount rest + 1)) := by
  unfold unsignedLength
  split
  · rename_i h
    exact .inl ⟨h, rfl⟩
  · rename_i whole h
    rw [h]
    split
    · rename_i rest hrest
      split
      · rename_i hzero
        refine .inr (.inl ⟨by omega, rfl, fun rest' hrest' => ?_⟩)
        rw [hrest] at hrest'
        cases hrest'
        exact hzero
      · rename_i fraction hfraction
        exact .inr (.inr ⟨by omega, rest, hrest, by omega, by omega⟩)
    · rename_i hnot
      exact .inr (.inl ⟨by omega, rfl, fun rest hrest => absurd hrest (hnot rest)⟩)

theorem take_unsignedLength {cs : List Char} (h : unsignedLength cs ≠ 0) :
    ∃ whole fraction, Digits whole ∧ Fraction fraction ∧ cs.take (unsignedLength cs) = whole ++ fraction := by
  rcases unsignedLength_cases cs with ⟨-, hzero⟩ | ⟨hdigits, hlength, -⟩ | ⟨hdigits, rest, hrest, hmore, hlength⟩
  · exact absurd hzero h
  · refine ⟨_, [], digits_take hdigits, .inl rfl, ?_⟩
    rw [hlength, List.append_nil]
  · refine ⟨_, _, digits_take hdigits, .inr ⟨_, digits_take hmore, rfl⟩, ?_⟩
    rw [hlength, List.take_add, hrest, List.take_succ_cons]

theorem le_unsignedLength {cs whole fraction : List Char} (hwhole : Digits whole) (hfraction : Fraction fraction)
    (h : whole ++ fraction <+: cs) : (whole ++ fraction).length ≤ unsignedLength cs := by
  have hwholeLe : whole.length ≤ digitCount cs :=
    length_le_takeWhile ((List.prefix_append _ _).trans h) hwhole.2
  have hpos := List.length_pos_iff.2 hwhole.1
  rcases hfraction with rfl | ⟨ds, hds, rfl⟩
  · rw [List.append_nil]
    rcases unsignedLength_cases cs with ⟨hzero, -⟩ | ⟨-, hlength, -⟩ | ⟨-, rest, -, -, hlength⟩ <;> omega
  · obtain ⟨more, rfl⟩ := h
    rw [List.append_assoc, List.cons_append] at *
    have hcount : digitCount (whole ++ '.' :: (ds ++ more)) = whole.length :=
      digitCount_append hwhole fun c hc => by cases hc; rfl
    have hdrop : (whole ++ '.' :: (ds ++ more)).drop whole.length = '.' :: (ds ++ more) := List.drop_left
    have hle : ds.length ≤ digitCount (ds ++ more) := length_le_takeWhile (List.prefix_append _ _) hds.2
    have hdspos := List.length_pos_iff.2 hds.1
    rw [List.length_append, List.length_cons]
    rcases unsignedLength_cases (whole ++ '.' :: (ds ++ more)) with
      ⟨hzero, -⟩ | ⟨-, -, hnone⟩ | ⟨-, rest, hrest, -, hlength⟩
    · omega
    · have := hnone _ (hcount ▸ hdrop)
      omega
    · rw [hcount, hdrop] at hrest
      cases hrest
      omega

theorem numberLength_minus (cs : List Char) :
    numberLength ('-' :: cs) = if unsignedLength cs = 0 then 0 else unsignedLength cs + 1 := by
  rw [numberLength]
  split
  · rename_i h
    rw [if_pos h]
  · rename_i n h
    rw [if_neg (by omega), h]

theorem numberLength_of_ne {cs : List Char} (h : cs.head? ≠ some '-') : numberLength cs = unsignedLength cs := by
  unfold numberLength
  split
  · exact absurd rfl h
  · rfl

theorem take_numberLength {cs : List Char} (h : numberLength cs ≠ 0) :
    cs.take (numberLength cs) ∈ TokenKind.number.language := by
  rw [TokenKind.mem_language_number, mem_decimal]
  by_cases hminus : cs.head? = some '-'
  · obtain ⟨rest, rfl⟩ := List.head?_eq_some_iff.1 hminus
    rw [numberLength_minus] at h ⊢
    split at h
    · exact absurd rfl h
    · rename_i hrest
      obtain ⟨whole, fraction, hwhole, hfraction, htake⟩ := take_unsignedLength hrest
      refine ⟨['-'], whole, fraction, .inl rfl, hwhole, hfraction, ?_⟩
      rw [if_neg hrest, List.take_succ_cons, htake]
      rfl
  · rw [numberLength_of_ne hminus] at h ⊢
    obtain ⟨whole, fraction, hwhole, hfraction, htake⟩ := take_unsignedLength h
    exact ⟨[], whole, fraction, .inr rfl, hwhole, hfraction, htake⟩

theorem le_numberLength {v cs : List Char} (hv : v ∈ TokenKind.number.language) (h : v <+: cs) :
    v.length ≤ numberLength cs := by
  obtain ⟨sign, whole, fraction, hsign, hwhole, hfraction, rfl⟩ := mem_decimal.1 (TokenKind.mem_language_number.1 hv)
  rcases hsign with rfl | rfl
  · obtain ⟨more, rfl⟩ := h
    have hle := le_unsignedLength hwhole hfraction (List.prefix_append (whole ++ fraction) more)
    have hpos := List.length_pos_iff.2 hwhole.1
    rw [List.length_append] at hle
    show _ ≤ numberLength ('-' :: (whole ++ fraction ++ more))
    rw [numberLength_minus, if_neg (by omega)]
    simp only [List.length_append, List.length_cons, List.length_nil]
    omega
  · have hhead : cs.head? ≠ some '-' := by
      obtain ⟨more, rfl⟩ := h
      obtain ⟨d, ds, rfl⟩ := List.exists_cons_of_ne_nil hwhole.1
      rintro heq
      have hd : d = '-' := by simpa using heq
      have hdigit := hwhole.2 d List.mem_cons_self
      rw [hd] at hdigit
      cases hdigit
    rw [numberLength_of_ne hhead]
    rw [List.nil_append] at h ⊢
    exact le_unsignedLength hwhole hfraction h

theorem take_nameLength_mem {cs : List Char} (h : nameLength cs ≠ 0) :
    cs.take (nameLength cs) ∈ TokenKind.name.language := by
  rw [TokenKind.mem_language_name, take_nameLength]
  exact ⟨fun hnil => h (by rw [nameLength, hnil]; rfl), List.all_eq_true.1 (List.all_takeWhile)⟩

theorem le_nameLength {v cs : List Char} (hv : v ∈ TokenKind.name.language) (h : v <+: cs) :
    v.length ≤ nameLength cs :=
  length_le_takeWhile h (TokenKind.mem_language_name.1 hv).2

/-! ### Strings -/

section Strings

variable {quote : Char} {body v w cs : List Char}

/-- A string goes on through what can stand in it. -/
theorem stringLength_append (hquote : quote ≠ '\\') (hbody : body ∈ (inside quote).language) (cs : List Char) :
    stringLength quote (body ++ cs) = (body.length + (stringLength quote cs).1, (stringLength quote cs).2) := by
  induction hbody using inside_induction with
  | nil => rw [List.nil_append, List.length_nil, Nat.zero_add]
  | plain c w hplain hescape _ ih =>
    have hcons : stringLength quote (c :: (w ++ cs)) =
        ((stringLength quote (w ++ cs)).1 + 1, (stringLength quote (w ++ cs)).2) := by
      cases w ++ cs with
      | nil => simp [stringLength, hplain]
      | cons d rest => simp [stringLength, hplain, hescape]
    rw [List.cons_append, hcons, ih, List.length_cons, Nat.add_right_comm]
  | escaped c w hc _ ih =>
    rw [List.cons_append, List.cons_append, stringLength, if_neg hquote.symm, if_pos rfl, if_neg hc, ih]
    simp only [List.length_cons, Prod.mk.injEq, and_true]
    omega

theorem extent_stringLength (quote : Char) (cs : List Char) :
    Extent quote (cs.take (stringLength quote cs).1) (stringLength quote cs).2 := by
  fun_induction stringLength quote cs with
  | case1 => exact .ended nil_mem_inside
  | case2 c =>
    by_cases hc : c = quote
    · rw [hc, beq_self_eq_true]
      exact .closed nil_mem_inside
    · rw [beq_eq_false_iff_ne.2 hc]
      by_cases hescape : c = '\\'
      · rw [hescape]
        exact .cut nil_mem_inside
      · exact .ended (plain_mem_inside hc hescape)
  | case3 d rest => exact .closed nil_mem_inside
  | case4 rest => exact .cut nil_mem_inside
  | case5 d rest hd n closed heq _ ih =>
    rw [heq] at ih
    exact ih.append (escaped_mem_inside hd)
  | case6 c d rest hc hescape n closed heq ih =>
    rw [heq] at ih
    exact ih.append (plain_mem_inside hc hescape)

theorem stringLength_pos (quote c : Char) (cs : List Char) : 0 < (stringLength quote (c :: cs)).1 := by
  cases cs with
  | nil => exact Nat.one_pos
  | cons d rest =>
    rw [stringLength]
    split_ifs <;> exact Nat.succ_pos _

theorem le_stringLength (hquote : quote ≠ '\\') (h : Extent quote v false) (hv : v <+: cs) :
    v.length ≤ (stringLength quote cs).1 := by
  obtain ⟨more, rfl⟩ := hv
  cases h with
  | ended hbody =>
    rw [stringLength_append hquote hbody]
    exact Nat.le_add_right _ _
  | cut hbody =>
    rw [List.append_assoc, stringLength_append hquote hbody, List.length_append]
    exact Nat.add_le_add_left (stringLength_pos quote '\\' more) _

theorem stringLength_closed (hquote : quote ≠ '\\') (hbody : body ∈ (inside quote).language)
    (h : body ++ [quote] <+: cs) : stringLength quote cs = ((body ++ [quote]).length, true) := by
  obtain ⟨more, rfl⟩ := h
  have hclose : stringLength quote (quote :: more) = (1, true) := by
    cases more <;> simp [stringLength]
  rw [List.append_assoc, stringLength_append hquote hbody, List.singleton_append, hclose, List.length_append]
  rfl

end Strings

/-! ## What is at the front, by the first character -/

variable {kind : TokenKind} {x : Char} {v w cs rest : List Char}

theorem scan_mark (h : ofMark? x = some kind) : scan (x :: cs) = (kind, 1) := by
  unfold ofMark? at h
  split at h <;> cases h <;> rfl

theorem scan_word (hmark : ofMark? x = none) (hclose : x ≠ '}') (hquote : ¬(x = '"' ∨ x = '\'')) :
    scan (x :: cs) = scanWord (x :: cs) := by
  unfold scan
  split
  case h_13 =>
    rename_i heq
    cases heq
    rw [if_neg hquote]
  all_goals simp_all [ofMark?]

theorem scan_quote (h : x = '"' ∨ x = '\'') : scan (x :: cs) =
    (if (stringLength x cs).2 then .string else .invalid, (stringLength x cs).1 + 1) := by
  rcases h with rfl | rfl <;> rfl

theorem scan_close (h : cs.head? ≠ some '}') : scan ('}' :: '}' :: cs) = (.close, 2) := by
  unfold scan
  split
  case h_2 =>
    rename_i heq
    cases heq
    exact absurd rfl h
  case h_3 => rfl
  case h_13 =>
    rename_i hclose _ _ _ _ _ _ _ _ _ heq
    cases heq
    exact absurd rfl (hclose cs rfl)
  all_goals simp_all

theorem scan_brace (h : cs.head? ≠ some '}') : scan ('}' :: cs) = (.invalid, 1) := by
  unfold scan
  split
  case h_2 =>
    rename_i heq
    cases heq
    exact absurd rfl h
  case h_3 =>
    rename_i heq
    cases heq
    exact absurd rfl h
  case h_13 =>
    rename_i heq
    cases heq
    rfl
  all_goals simp_all

/-! ## The longest match -/

/-- `w` is the text at the front that is the token, as a token of that kind: no token at the front is longer, and none
of another kind is as long, except that a number is also a name. -/
structure LongestMatch (rest : List Char) (kind : TokenKind) (w : List Char) : Prop where
  leads : w <+: rest
  fits : w ∈ kind.language
  longest : ∀ k : TokenKind, ∀ v, v <+: rest → v ∈ k.language → v.length ≤ w.length
  preferred : ∀ k : TokenKind, w ∈ k.language → k = kind ∨ kind = .number ∧ k = .name

/-- A proper beginning of some token. -/
def Begun (w : List Char) : Prop := ∃ kind : TokenKind, ∃ t ∈ kind.language, w <+: t ∧ w ≠ t

/-- No token is at the front, and `w` is the longest text there that a token could begin with, or else one
character. -/
structure NoMatch (rest w : List Char) : Prop where
  leads : w <+: rest
  unmatched : ∀ k : TokenKind, ∀ v, v <+: rest → v ∉ k.language
  begun : w.length = 1 ∨ Begun w
  longest : ∀ v, v <+: rest → Begun v → v.length ≤ w.length
  nonempty : w ≠ []

/-- What a token at the front can be. -/
theorem begins_of_leads (hv : v <+: x :: cs) (h : v ∈ kind.language) :
    ∃ u, v = x :: u ∧ u <+: cs ∧ Begins x kind u := by
  rcases List.prefix_cons_iff.1 hv with rfl | ⟨u, rfl, hu⟩
  · exact absurd h nil_notMem_language
  · exact ⟨u, rfl, hu, begins_of_mem h⟩

/-- A bound on what can be begun at the front, from one on what follows the first character. -/
theorem Begun.length_le {n : Nat} (h : Begun v) (hv : v <+: x :: cs)
    (hle : ∀ k t u, Begins x k t → u <+: t → u ≠ t → u <+: cs → u.length ≤ n) : v.length ≤ n + 1 := by
  obtain ⟨k, t, ht, ⟨more, rfl⟩, hproper⟩ := h
  rcases List.prefix_cons_iff.1 hv with rfl | ⟨u, rfl, hu⟩
  · exact Nat.zero_le _
  · have hmore : u ≠ u ++ more := fun heq => hproper (congrArg (x :: ·) heq)
    exact Nat.succ_le_succ (hle k _ u (begins_of_mem ht) (List.prefix_append _ _) hmore hu)

theorem LongestMatch.of_unique (leads : w <+: rest) (fits : w ∈ kind.language)
    (unique : ∀ k : TokenKind, ∀ v, v <+: rest → v ∈ k.language → v = w ∧ k = kind) : LongestMatch rest kind w where
  leads := leads
  fits := fits
  longest := by
    intro k v hv hk
    rw [(unique k v hv hk).1]
  preferred := fun k hk => .inl (unique k w leads hk).2

theorem longest_mark (h : ofMark? x = some kind) (cs : List Char) : LongestMatch (x :: cs) kind [x] := by
  refine .of_unique ⟨cs, rfl⟩ (TokenKind.mem_language_of_ofMark? h) fun k v hv hk => ?_
  obtain ⟨u, rfl, -, hbegins⟩ := begins_of_leads hv hk
  have hname := TokenKind.isNameChar_of_ofMark? h
  cases hbegins with
  | mark hmark => exact ⟨rfl, Option.some.inj (hmark.symm.trans h)⟩
  | close hx => cases hx; cases h
  | closeTriple hx => cases hx; cases h
  | string hx => rcases hx with rfl | rfl <;> cases h
  | number hx => cases hname.symm.trans hx
  | name hx => cases hname.symm.trans hx

/-! ### Closing braces -/

theorem longest_closeTriple (cs : List Char) :
    LongestMatch ('}' :: '}' :: '}' :: cs) .closeTriple ['}', '}', '}'] where
  leads := ⟨cs, rfl⟩
  fits := (TokenKind.mem_language_of_spelling rfl).2 rfl
  longest := by
    intro k v hv hk
    obtain ⟨u, rfl, -, hbegins⟩ := begins_of_leads hv hk
    rcases hbegins.of_brace with ⟨-, rfl⟩ | ⟨-, rfl⟩ <;> simp
  preferred := by
    intro k hk
    rcases (begins_of_mem hk).of_brace with ⟨-, hv⟩ | ⟨hkind, -⟩
    · cases hv
    · exact .inl hkind

theorem longest_close (h : cs.head? ≠ some '}') : LongestMatch ('}' :: '}' :: cs) .close ['}', '}'] := by
  refine .of_unique ⟨cs, rfl⟩ ((TokenKind.mem_language_of_spelling rfl).2 rfl) fun k v hv hk => ?_
  obtain ⟨u, rfl, hu, hbegins⟩ := begins_of_leads hv hk
  rcases hbegins.of_brace with ⟨hkind, rfl⟩ | ⟨-, rfl⟩
  · exact ⟨rfl, hkind⟩
  · obtain ⟨more, hmore⟩ := hu
    cases hmore
    exact absurd rfl h

theorem noMatch_brace (h : cs.head? ≠ some '}') : NoMatch ('}' :: cs) ['}'] where
  leads := ⟨cs, rfl⟩
  unmatched := by
    intro k v hv hk
    obtain ⟨u, rfl, ⟨more, rfl⟩, hbegins⟩ := begins_of_leads hv hk
    rcases hbegins.of_brace with ⟨-, rfl⟩ | ⟨-, rfl⟩ <;> exact h rfl
  begun := .inl rfl
  longest := by
    intro v hv hbegun
    refine hbegun.length_le hv fun k t u hbegins hut _ hu => ?_
    cases u with
    | nil => exact le_rfl
    | cons y u =>
      obtain ⟨last, rfl⟩ := hut
      have hy : y = '}' := by
        rcases hbegins.of_brace with ⟨-, heq⟩ | ⟨-, heq⟩ <;> exact (List.cons.inj heq).1
      obtain ⟨more, rfl⟩ := hu
      exact absurd (congrArg some hy) h
  nonempty := List.cons_ne_nil _ _

/-! ### Strings -/

section

variable (hx : x = '"' ∨ x = '\'')
include hx

theorem quote_ne_escape : x ≠ '\\' := by
  rcases hx with rfl | rfl <;> decide

theorem string_mem_language (h : Extent x w true) : x :: w ∈ TokenKind.string.language := by
  cases h with
  | closed hbody => exact TokenKind.mem_language_string.2 ⟨x, hx, _, hbody, rfl⟩

theorem longest_string (hclosed : (stringLength x cs).2 = true) :
    LongestMatch (x :: cs) .string (x :: cs.take (stringLength x cs).1) := by
  have hextent := extent_stringLength x cs
  rw [hclosed] at hextent
  refine .of_unique ((List.prefix_cons_inj x).2 (List.take_prefix _ _)) (string_mem_language hx hextent) ?_
  intro k v hv hk
  obtain ⟨u, rfl, hu, hbegins⟩ := begins_of_leads hv hk
  obtain ⟨hkind, body, hbody, rfl⟩ := hbegins.of_quote hx
  refine ⟨?_, hkind⟩
  rw [stringLength_closed (quote_ne_escape hx) hbody hu, ← List.prefix_iff_eq_take.1 hu]

/-- What a string could go on with is a proper beginning of it. -/
theorem begun_of_extent (h : Extent x w false) : Begun (x :: w) := by
  cases h with
  | ended hbody =>
    refine ⟨.string, _, string_mem_language hx (.closed hbody), ⟨[x], rfl⟩, fun heq => ?_⟩
    simp at heq
  | cut hbody =>
    have hescaped : ['\\', 'a'] ∈ (inside x).language := escaped_mem_inside (by decide)
    have hmore := append_mem_inside hbody hescaped
    refine ⟨.string, _, string_mem_language hx (.closed hmore), ⟨['a', x], by simp⟩, fun heq => ?_⟩
    simp at heq

theorem noMatch_string (hopen : (stringLength x cs).2 = false) :
    NoMatch (x :: cs) (x :: cs.take (stringLength x cs).1) where
  leads := (List.prefix_cons_inj x).2 (List.take_prefix _ _)
  unmatched := by
    intro k v hv hk
    obtain ⟨u, rfl, hu, hbegins⟩ := begins_of_leads hv hk
    obtain ⟨-, body, hbody, rfl⟩ := hbegins.of_quote hx
    rw [stringLength_closed (quote_ne_escape hx) hbody hu] at hopen
    cases hopen
  begun := .inr (begun_of_extent hx (hopen ▸ extent_stringLength x cs))
  longest := by
    intro v hv hbegun
    refine hbegun.length_le hv fun k t u hbegins hut hne hu => ?_
    obtain ⟨-, body, hbody, rfl⟩ := hbegins.of_quote hx
    have hleads : u <+: body := (List.prefix_concat_iff.1 hut).resolve_left hne
    rw [List.length_take]
    exact le_min (le_stringLength (quote_ne_escape hx) (extent_of_leads hbody hleads) hu) hu.length_le
  nonempty := List.cons_ne_nil _ _

end

/-! ### Words -/

section Words

variable (hmark : ofMark? x = none) (hclose : x ≠ '}') (hquote : ¬(x = '"' ∨ x = '\''))
include hmark hclose hquote

theorem length_le_of_word {n : Nat} (hnumber : numberLength (x :: cs) ≤ n) (hname : nameLength (x :: cs) ≤ n)
    (hv : v <+: x :: cs) (h : v ∈ kind.language) : v.length ≤ ((x :: cs).take n).length := by
  rw [List.length_take]
  refine le_min ?_ hv.length_le
  obtain ⟨u, rfl, -, hbegins⟩ := begins_of_leads hv h
  rcases (hbegins.of_word hmark hclose hquote).1 with rfl | rfl
  · exact (le_numberLength h hv).trans hnumber
  · exact (le_nameLength h hv).trans hname

theorem longest_number (hpos : numberLength (x :: cs) ≠ 0) (hle : nameLength (x :: cs) ≤ numberLength (x :: cs)) :
    LongestMatch (x :: cs) .number ((x :: cs).take (numberLength (x :: cs))) where
  leads := List.take_prefix _ _
  fits := take_numberLength hpos
  longest := fun _ _ => length_le_of_word hmark hclose hquote le_rfl hle
  preferred := by
    intro k hk
    obtain ⟨u, -, -, hbegins⟩ := begins_of_leads (List.take_prefix _ _) hk
    exact (hbegins.of_word hmark hclose hquote).1.imp_right fun h => ⟨rfl, h⟩

theorem longest_name (hlt : numberLength (x :: cs) < nameLength (x :: cs)) :
    LongestMatch (x :: cs) .name ((x :: cs).take (nameLength (x :: cs))) where
  leads := List.take_prefix _ _
  fits := take_nameLength_mem (by omega)
  longest := fun _ _ => length_le_of_word hmark hclose hquote hlt.le le_rfl
  preferred := by
    intro k hk
    obtain ⟨u, -, -, hbegins⟩ := begins_of_leads (List.take_prefix _ _) hk
    rcases (hbegins.of_word hmark hclose hquote).1 with rfl | rfl
    · have hlength := le_numberLength hk (List.take_prefix _ _)
      rw [take_nameLength] at hlength
      exact absurd hlength (Nat.not_le.2 hlt)
    · exact .inl rfl

theorem noMatch_word (hnone : nameLength (x :: cs) = 0) : NoMatch (x :: cs) [x] := by
  have hname : isNameChar x ≠ true := by
    intro hx
    rw [nameLength, List.takeWhile_cons_of_pos hx] at hnone
    cases hnone
  have hbegins {k : TokenKind} {t : List Char} : ¬ Begins x k t := fun h =>
    hname (h.of_word hmark hclose hquote).2
  refine ⟨⟨cs, rfl⟩, fun k v hv hk => ?_, .inl rfl, fun v hv hbegun => ?_, List.cons_ne_nil _ _⟩
  · obtain ⟨u, -, -, h⟩ := begins_of_leads hv hk
    exact hbegins h
  · exact hbegun.length_le hv fun k t u h => absurd h hbegins

end Words

/-- At the front of a text the longest token is taken, if there is one, and else what a token could begin with. -/
theorem scan_longest (x : Char) (cs : List Char) :
    LongestMatch (x :: cs) (scan (x :: cs)).1 ((x :: cs).take (scan (x :: cs)).2) ∨
      (scan (x :: cs)).1 = .invalid ∧ NoMatch (x :: cs) ((x :: cs).take (scan (x :: cs)).2) := by
  cases hmark : ofMark? x with
  | some kind =>
    rw [scan_mark hmark]
    exact .inl (longest_mark hmark cs)
  | none =>
    by_cases hclose : x = '}'
    · rw [hclose]
      by_cases hone : cs.head? = some '}'
      · obtain ⟨cs, rfl⟩ := List.head?_eq_some_iff.1 hone
        by_cases htwo : cs.head? = some '}'
        · obtain ⟨cs, rfl⟩ := List.head?_eq_some_iff.1 htwo
          exact .inl (longest_closeTriple cs)
        · rw [scan_close htwo]
          exact .inl (longest_close htwo)
      · rw [scan_brace hone]
        exact .inr ⟨rfl, noMatch_brace hone⟩
    · by_cases hquote : x = '"' ∨ x = '\''
      · rw [scan_quote hquote]
        cases hclosed : (stringLength x cs).2 with
        | true => exact .inl (longest_string hquote hclosed)
        | false => exact .inr ⟨rfl, noMatch_string hquote hclosed⟩
      · rw [scan_word hmark hclose hquote, scanWord]
        split
        · rename_i hnone
          exact .inr ⟨rfl, noMatch_word hmark hclose hquote hnone.2⟩
        · split
          · exact .inl (longest_number hmark hclose hquote (by omega) ‹_›)
          · exact .inl (longest_name hmark hclose hquote (by omega))

example : ["-1a", "-1.5.", "1.", "-", "\x7d\x7d\x7d\x7d", "\x7d", "'a\\'b", "a\x0bb"].map (scan ·.toList) =
    [(.name, 3), (.number, 4), (.number, 1), (.name, 1), (.closeTriple, 3), (.invalid, 1), (.invalid, 5),
      (.name, 1)] := by
  decide

/-- Some token is at the front of a text. -/
def Matched (rest : List Char) : Prop := ∃ kind : TokenKind, ∃ v, v ≠ [] ∧ v <+: rest ∧ v ∈ kind.language

theorem LongestMatch.matched (h : LongestMatch rest kind w) : Matched rest :=
  ⟨kind, w, fun hnil => nil_notMem_language (hnil ▸ h.fits), h.leads, h.fits⟩

theorem NoMatch.not_matched (h : NoMatch rest w) : ¬ Matched rest := by
  rintro ⟨k, v, -, hv, hk⟩
  exact h.unmatched k v hv hk

/-- The token at a place. Only separators are skipped before it. At the end of the text it is the end; elsewhere it is
the longest match if anything matches, and otherwise it is invalid and covers the longest proper beginning of a token,
at least one character. -/
theorem next_longest_match {source : String} {offset : Nat} (h : Boundary source offset) :
    ∃ c gap rest, Cursor.at? source offset = some c ∧ c.rest = gap ++ rest ∧ gap.all isSeparator = true ∧
      (∀ x ∈ rest.head?, isSeparator x = false) ∧
      let t := (next c).token
      t.span.start = offset + byteLength gap ∧ t.span.slice source = some t.text ∧
      (rest = [] → t = endToken source) ∧
      (Matched rest → LongestMatch rest t.kind t.text.toList) ∧
      (rest ≠ [] → ¬ Matched rest → t.kind = .invalid ∧ NoMatch rest t.text.toList) := by
  obtain ⟨c, hat, hc, rfl⟩ := Cursor.exists_at? h
  refine ⟨c, c.rest.takeWhile isSeparator, (next c).before.rest, hat, List.takeWhile_append_dropWhile.symm,
    List.all_takeWhile, ?_, rfl, (hc.reaches (reaches_before c)).slice (passes_token c), ?_, ?_⟩
  · intro x hx
    have hnot := List.head?_dropWhile_not isSeparator c.rest
    have hhead : (c.rest.dropWhile isSeparator).head? = some x := hx
    rw [hhead] at hnot
    exact hnot
  · intro hrest
    refine (next_of_eof hc ?_).1
    show (scan (next c).before.rest).1 = .eof
    rw [hrest]
    rfl
  · have htext : (next c).token.text.toList = (next c).before.rest.take (scan (next c).before.rest).2 :=
      String.toList_ofList
    have hkind : (next c).token.kind = (scan (next c).before.rest).1 := rfl
    rw [htext, hkind]
    cases (next c).before.rest with
    | nil =>
      refine ⟨?_, fun hne => absurd rfl hne⟩
      rintro ⟨k, v, hne, hv, -⟩
      exact absurd (List.prefix_nil.1 hv) hne
    | cons x cs =>
      rcases scan_longest x cs with hmatch | ⟨hinvalid, hnone⟩
      · exact ⟨fun _ => hmatch, fun _ hnot => absurd hmatch.matched hnot⟩
      · exact ⟨fun hmatched => absurd hmatched hnone.not_matched, fun _ _ => ⟨hinvalid, hnone⟩⟩

/-- A number that goes on as a name, after a character of two bytes and a space. -/
theorem next_longest_match_after_character :
    let source := "é -1a"
    Boundary source 2 ∧ ∃ c gap rest, Cursor.at? source 2 = some c ∧ c.rest = gap ++ rest ∧
      gap.all isSeparator = true ∧ (∀ x ∈ rest.head?, isSeparator x = false) ∧
      let t := (next c).token
      t.span.start = 2 + byteLength gap ∧ t.span.slice source = some t.text ∧
      (rest = [] → t = endToken source) ∧
      (Matched rest → LongestMatch rest t.kind t.text.toList) ∧
      (rest ≠ [] → ¬ Matched rest → t.kind = .invalid ∧ NoMatch rest t.text.toList) := by
  have h : Boundary "é -1a" 2 := ⟨['é'], " -1a".toList, by decide, by decide⟩
  exact ⟨h, next_longest_match h⟩

end Lexer

end TypedTemplate.Template
