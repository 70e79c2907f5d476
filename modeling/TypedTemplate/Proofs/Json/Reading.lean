/-
What is written as JSON is read back. A value has many texts, which differ in the white space between the
tokens; the reader takes every one of them to the value, and both printers write one of them. Numbers are left
out: the values that are written and read again have none.
-/
import TypedTemplate.Json.Printer
import TypedTemplate.Json.Reader
import Mathlib.Data.List.DropRight

namespace TypedTemplate.Json

variable (n : Nat) (cs : List Char)

/-! ## Strings -/

/-- The digits of an escape are read back. -/
theorem hexDigit?_digit : ∀ n < 16, hexDigit? ((Nat.toDigits 16 n).headD '0') = some n := by decide

theorem readEscape_control {c : Char} (h : c.toNat < 0x20) (rest : List Char) :
    readEscape ((Text.controlEscape c).tail ++ rest) = some (c, rest) := by
  have hhigh := hexDigit?_digit (c.toNat / 16) (by omega)
  have hlow := hexDigit?_digit (c.toNat % 16) (by omega)
  have hzero : hexDigit? '0' = some 0 := rfl
  have hvalue : ((0 * 16 + 0) * 16 + c.toNat / 16) * 16 + c.toNat % 16 = c.toNat := by omega
  simp only [Text.controlEscape, List.tail_cons, List.cons_append, List.nil_append, readEscape, readCodePoint,
    readHex4, hzero, hhigh, hlow, Option.bind_eq_bind, Option.bind_some, hvalue]
  rw [if_neg (by omega), if_neg (by omega), Char.ofNat_toNat]

/-- Between quotes a character is an escape that is read back, or it stands for itself. -/
theorem quotedChar_cases (c : Char) :
    (∃ escape, Text.quotedChar c = '\\' :: escape ∧ ∀ rest, readEscape (escape ++ rest) = some (c, rest)) ∨
      Text.quotedChar c = [c] ∧ c ≠ '"' ∧ c ≠ '\\' ∧ ¬ c.toNat < 0x20 := by
  unfold Text.quotedChar
  split
  case h_8 hquote hslash _ _ _ _ _ =>
    split
    · rename_i h
      exact .inl ⟨(Text.controlEscape c).tail, rfl, readEscape_control h⟩
    · rename_i h
      exact .inr ⟨rfl, hquote, hslash, h⟩
  all_goals exact .inl ⟨_, rfl, fun _ => rfl⟩

/-- A character between quotes is read back. -/
theorem readString_quotedChar (c : Char) (n : Nat) (rest : List Char) :
    readString (n + 1) (Text.quotedChar c ++ rest) = (readString n rest).map fun r => (c :: r.1, r.2) := by
  rcases quotedChar_cases c with ⟨escape, hchar, hescape⟩ | ⟨hchar, hquote, hslash, hcontrol⟩
  · rw [hchar, List.cons_append, readString, if_neg (by decide), if_pos rfl, hescape]
    show (readString n rest).bind _ = _
    cases readString n rest <;> rfl
  · rw [hchar, List.singleton_append, readString, if_neg hquote, if_neg hslash, if_neg hcontrol]
    cases readString n rest <;> rfl

/-- A text between quotes is read back. -/
theorem readString_quoted {n : Nat} (h : cs.length < n) (rest : List Char) :
    readString n (cs.flatMap Text.quotedChar ++ '"' :: rest) = some (cs, rest) := by
  induction cs generalizing n with
  | nil =>
    obtain ⟨n, rfl⟩ := Nat.exists_eq_succ_of_ne_zero (Nat.ne_of_gt h)
    rfl
  | cons c cs ih =>
    obtain ⟨n, rfl⟩ := Nat.exists_eq_succ_of_ne_zero (Nat.ne_of_gt (Nat.zero_lt_of_lt h))
    rw [List.flatMap_cons, List.append_assoc, readString_quotedChar, ih (Nat.lt_of_succ_lt_succ h)]
    rfl

theorem length_le_quoted : cs.length ≤ (cs.flatMap Text.quotedChar).length := by
  induction cs with
  | nil => exact Nat.le_refl _
  | cons c cs ih =>
    have hpos : 0 < (Text.quotedChar c).length := by
      rcases quotedChar_cases c with ⟨escape, hchar, -⟩ | ⟨hchar, -⟩ <;> simp [hchar]
    rw [List.flatMap_cons, List.length_append, List.length_cons]
    omega

/-! ## Texts of a value -/

/-- White space between tokens. -/
def Gap (cs : List Char) : Prop := ∀ c ∈ cs, isSpace c = true

/-- The text of a string. -/
def quote (s : String) : List Char := '"' :: (Text.quotedBody s ++ ['"'])

mutual

/-- The texts of a value. -/
def Spells : Json → List Char → Prop
  | .null, cs => cs = ['n', 'u', 'l', 'l']
  | .bool true, cs => cs = ['t', 'r', 'u', 'e']
  | .bool false, cs => cs = ['f', 'a', 'l', 's', 'e']
  | .number _, _ => False
  | .string s, cs => cs = quote s
  | .array items, cs => ∃ inside, SpellsItems items inside ∧ cs = '[' :: (inside ++ [']'])
  | .object entries, cs => ∃ inside, SpellsEntries entries inside ∧ cs = '\x7b' :: (inside ++ ['\x7d'])

/-- The texts between the brackets of an array. -/
def SpellsItems : List Json → List Char → Prop
  | [], cs => Gap cs
  | [j], cs => ∃ before text after, Gap before ∧ Spells j text ∧ Gap after ∧ cs = before ++ (text ++ after)
  | j :: js, cs => ∃ before text after rest, Gap before ∧ Spells j text ∧ Gap after ∧ SpellsItems js rest ∧
      cs = before ++ (text ++ (after ++ ',' :: rest))

/-- The texts between the braces of an object. -/
def SpellsEntries : List (String × Json) → List Char → Prop
  | [], cs => Gap cs
  | [(k, j)], cs => ∃ before between text after, Gap before ∧ Gap between ∧ Spells j text ∧ Gap after ∧
      cs = before ++ (quote k ++ ':' :: (between ++ (text ++ after)))
  | (k, j) :: es, cs => ∃ before between text after rest, Gap before ∧ Gap between ∧ Spells j text ∧ Gap after ∧
      SpellsEntries es rest ∧ cs = before ++ (quote k ++ ':' :: (between ++ (text ++ (after ++ ',' :: rest))))

end

/-! ## Reading a text of a value -/

variable {gap rest : List Char}

theorem skipSpace_gap (hgap : Gap gap) {c : Char} (hc : isSpace c = false) (rest : List Char) :
    skipSpace (gap ++ c :: rest) = c :: rest := by
  rw [skipSpace, List.dropWhile_append_of_pos hgap, List.dropWhile_cons_of_neg (by simp [hc])]

@[simp] theorem skipSpace_idem : skipSpace (skipSpace cs) = skipSpace cs :=
  List.dropWhile_idempotent _ cs

/-- A text of a value starts with the first character of a token. -/
theorem Spells.head {j : Json} {cs : List Char} (h : Spells j cs) :
    ∃ c tail, cs = c :: tail ∧ isSpace c = false ∧ c ≠ ']' := by
  cases j with
  | null => exact ⟨'n', _, h, by decide⟩
  | bool b =>
    cases b with
    | false => exact ⟨'f', _, h, by decide⟩
    | true => exact ⟨'t', _, h, by decide⟩
  | number literal => exact absurd h id
  | string s => exact ⟨'"', _, h, by decide⟩
  | array items =>
    obtain ⟨inside, -, hcs⟩ := h
    exact ⟨'[', _, hcs, by decide⟩
  | object entries =>
    obtain ⟨inside, -, hcs⟩ := h
    exact ⟨'\x7b', _, hcs, by decide⟩

theorem readValue_skipSpace : readValue n (skipSpace cs) = readValue n cs := by
  cases n with
  | zero => rfl
  | succ n => rw [readValue, readValue, skipSpace_idem]

-- The lemmas below all open the reader, whose equations are generated here, once, before they are elaborated together.
example : readValue 1 " null".toList = readValue 1 "null".toList := by cbv

theorem readItems_skipSpace : readItems n (skipSpace cs) = readItems n cs := by
  cases n with
  | zero => rfl
  | succ n => rw [readItems, readItems, readValue_skipSpace]

theorem readEntries_skipSpace : readEntries n (skipSpace cs) = readEntries n cs := by
  cases n with
  | zero => rfl
  | succ n => rw [readEntries, readEntries, skipSpace_idem]

variable {n cs} {tail : List Char}

/-- What follows the quote that opens a string is read to the end of the string. -/
theorem exists_quote (s : String) (rest : List Char) :
    ∃ tail, quote s ++ rest = '"' :: tail ∧ readString (tail.length + 1) tail = some (s.toList, rest) := by
  refine ⟨s.toList.flatMap Text.quotedChar ++ '"' :: rest, by simp [quote, Text.quotedBody], ?_⟩
  refine readString_quoted _ ?_ rest
  have := length_le_quoted s.toList
  rw [List.length_append]
  omega

theorem readValue_string (s : String) (hopen : skipSpace cs = quote s ++ rest) :
    readValue (n + 1) cs = some (.string s, rest) := by
  obtain ⟨tail, htail, hread⟩ := exists_quote s rest
  simp only [readValue, hopen, htail, hread, Option.bind_eq_bind, Option.bind_some, String.ofList_toList]

theorem readValue_emptyArray (hopen : skipSpace cs = '[' :: tail) (hclose : skipSpace tail = ']' :: rest) :
    readValue (n + 1) cs = some (.array [], rest) := by
  simp only [readValue, hopen, hclose]

theorem readValue_array {items : List Json} (hopen : skipSpace cs = '[' :: tail)
    (hfirst : (skipSpace tail).head? ≠ some ']') (hitems : readItems n tail = some (items, rest)) :
    readValue (n + 1) cs = some (.array items, rest) := by
  rw [← readItems_skipSpace] at hitems
  simp only [readValue, hopen]
  split
  · simp_all
  · rw [hitems]
    rfl

theorem readValue_emptyObject (hopen : skipSpace cs = '\x7b' :: tail) (hclose : skipSpace tail = '\x7d' :: rest) :
    readValue (n + 1) cs = some (.object [], rest) := by
  simp only [readValue, hopen, hclose]

theorem readValue_object {entries : List (String × Json)} (hopen : skipSpace cs = '\x7b' :: tail)
    (hfirst : (skipSpace tail).head? ≠ some '\x7d') (hentries : readEntries n tail = some (entries, rest)) :
    readValue (n + 1) cs = some (.object entries, rest) := by
  rw [← readEntries_skipSpace] at hentries
  simp only [readValue, hopen]
  split
  · simp_all
  · rw [hentries]
    rfl

theorem readItems_last {j : Json} {after : List Char} (hvalue : readValue n cs = some (j, after))
    (hclose : skipSpace after = ']' :: rest) : readItems (n + 1) cs = some ([j], rest) := by
  simp only [readItems, hvalue, Option.bind_eq_bind, Option.bind_some, hclose]

theorem readItems_more {j : Json} {js : List Json} {after : List Char} (hvalue : readValue n cs = some (j, after))
    (hcomma : skipSpace after = ',' :: tail) (hitems : readItems n tail = some (js, rest)) :
    readItems (n + 1) cs = some (j :: js, rest) := by
  simp only [readItems, hvalue, Option.bind_eq_bind, Option.bind_some, hcomma, hitems]

theorem readEntries_last (k : String) {j : Json} {after : List Char}
    (hopen : skipSpace cs = quote k ++ ':' :: tail) (hvalue : readValue n tail = some (j, after))
    (hclose : skipSpace after = '\x7d' :: rest) : readEntries (n + 1) cs = some ([(k, j)], rest) := by
  obtain ⟨inside, hinside, hread⟩ := exists_quote k (':' :: tail)
  have hcolon : skipSpace (':' :: tail) = ':' :: tail := rfl
  simp only [readEntries, hopen, hinside, hread, hcolon, hvalue, hclose, Option.bind_eq_bind, Option.bind_some,
    String.ofList_toList]

theorem readEntries_more (k : String) {j : Json} {es : List (String × Json)} {after next : List Char}
    (hopen : skipSpace cs = quote k ++ ':' :: tail) (hvalue : readValue n tail = some (j, after))
    (hcomma : skipSpace after = ',' :: next) (hentries : readEntries n next = some (es, rest)) :
    readEntries (n + 1) cs = some ((k, j) :: es, rest) := by
  obtain ⟨inside, hinside, hread⟩ := exists_quote k (':' :: tail)
  have hcolon : skipSpace (':' :: tail) = ':' :: tail := rfl
  simp only [readEntries, hopen, hinside, hread, hcolon, hvalue, hcomma, hentries, Option.bind_eq_bind,
    Option.bind_some, String.ofList_toList]

/-- A token after white space is what is read next. -/
theorem Spells.skipSpace {j : Json} (h : Spells j cs) (hgap : Gap gap) (rest : List Char) :
    skipSpace (gap ++ (cs ++ rest)) = cs ++ rest := by
  obtain ⟨c, tail, rfl, hc, -⟩ := h.head
  exact skipSpace_gap hgap hc _

theorem Spells.fuel_pos {j : Json} (h : Spells j cs) (hn : 2 * cs.length ≤ n) : ∃ m, n = m + 1 := by
  obtain ⟨c, tail, rfl, -⟩ := h.head
  rw [List.length_cons] at hn
  exact ⟨n - 1, by omega⟩

theorem skipSpace_quote (hgap : Gap gap) (k : String) (rest : List Char) :
    skipSpace (gap ++ (quote k ++ rest)) = quote k ++ rest := skipSpace_gap hgap (by decide) _

/-- What an array with items starts with is no closing bracket. -/
theorem SpellsItems.first {j : Json} {js : List Json} (h : SpellsItems (j :: js) cs) (rest : List Char) :
    (Json.skipSpace (cs ++ rest)).head? ≠ some ']' := by
  obtain ⟨before, text, tail, hbefore, htext, rfl⟩ :
      ∃ before text tail, Gap before ∧ Spells j text ∧ cs = before ++ (text ++ tail) := by
    cases js with
    | nil =>
      obtain ⟨before, text, after, hbefore, htext, -, rfl⟩ := h
      exact ⟨before, text, after, hbefore, htext, rfl⟩
    | cons k js =>
      obtain ⟨before, text, after, more, hbefore, htext, -, -, rfl⟩ := h
      exact ⟨before, text, _, hbefore, htext, rfl⟩
  rw [List.append_assoc, List.append_assoc, htext.skipSpace hbefore]
  obtain ⟨c, tail, rfl, -, hc⟩ := htext.head
  simpa using hc

/-- What an object with entries starts with is no closing brace. -/
theorem SpellsEntries.first {e : String × Json} {es : List (String × Json)} (h : SpellsEntries (e :: es) cs)
    (rest : List Char) : (Json.skipSpace (cs ++ rest)).head? ≠ some '\x7d' := by
  obtain ⟨k, j⟩ := e
  obtain ⟨before, tail, hbefore, rfl⟩ : ∃ before tail, Gap before ∧ cs = before ++ (quote k ++ tail) := by
    cases es with
    | nil =>
      obtain ⟨before, between, text, after, hbefore, -, -, -, rfl⟩ := h
      exact ⟨before, _, hbefore, rfl⟩
    | cons e es =>
      obtain ⟨before, between, text, after, more, hbefore, -, -, -, -, rfl⟩ := h
      exact ⟨before, _, hbefore, rfl⟩
  rw [List.append_assoc, List.append_assoc, skipSpace_quote hbefore]
  simp [quote]

mutual

/-- The reader takes every text of a value to the value. -/
theorem readValue_spells : ∀ {j : Json} {text cs rest : List Char} {n : Nat}, Spells j cs →
    skipSpace text = cs ++ rest → 2 * cs.length ≤ n → readValue n text = some (j, rest)
  | .null, _, _, _, _ => fun h hopen hn => by
    obtain ⟨n, rfl⟩ := h.fuel_pos hn
    subst h
    rw [readValue, hopen]
    rfl
  | .bool true, _, _, _, _ => fun h hopen hn => by
    obtain ⟨n, rfl⟩ := h.fuel_pos hn
    subst h
    rw [readValue, hopen]
    rfl
  | .bool false, _, _, _, _ => fun h hopen hn => by
    obtain ⟨n, rfl⟩ := h.fuel_pos hn
    subst h
    rw [readValue, hopen]
    rfl
  | .number _, _, _, _, _ => fun h _ _ => absurd h id
  | .string s, _, _, _, _ => fun h hopen hn => by
    obtain ⟨n, rfl⟩ := h.fuel_pos hn
    subst h
    exact readValue_string s hopen
  | .array items, _, _, rest, _ => fun h hopen hn => by
    obtain ⟨n, rfl⟩ := h.fuel_pos hn
    obtain ⟨inside, hinside, rfl⟩ := h
    rw [List.cons_append, List.append_assoc, List.singleton_append] at hopen
    simp only [List.length_cons, List.length_append] at hn
    cases items with
    | nil => exact readValue_emptyArray hopen (skipSpace_gap hinside (by decide) rest)
    | cons j js =>
      exact readValue_array hopen (hinside.first _) (readItems_spells hinside (by omega))
  | .object entries, _, _, rest, _ => fun h hopen hn => by
    obtain ⟨n, rfl⟩ := h.fuel_pos hn
    obtain ⟨inside, hinside, rfl⟩ := h
    rw [List.cons_append, List.append_assoc, List.singleton_append] at hopen
    simp only [List.length_cons, List.length_append] at hn
    cases entries with
    | nil => exact readValue_emptyObject hopen (skipSpace_gap hinside (by decide) rest)
    | cons e es =>
      exact readValue_object hopen (hinside.first _) (readEntries_spells hinside (by omega))

theorem readItems_spells : ∀ {j : Json} {js : List Json} {cs rest : List Char} {n : Nat},
    SpellsItems (j :: js) cs → 2 * cs.length + 1 ≤ n → readItems n (cs ++ ']' :: rest) = some (j :: js, rest)
  | _, _, _, _, 0 => fun _ hn => absurd hn (Nat.not_succ_le_zero _)
  | _, [], _, rest, n + 1 => fun h hn => by
    obtain ⟨before, text, after, hbefore, htext, hafter, rfl⟩ := h
    simp only [List.length_append] at hn
    rw [List.append_assoc, List.append_assoc]
    exact readItems_last (readValue_spells htext (htext.skipSpace hbefore _) (by omega))
      (skipSpace_gap hafter (by decide) rest)
  | _, _ :: _, _, _, n + 1 => fun h hn => by
    obtain ⟨before, text, after, more, hbefore, htext, hafter, hmore, rfl⟩ := h
    simp only [List.length_append, List.length_cons] at hn
    simp only [List.append_assoc, List.cons_append]
    exact readItems_more (readValue_spells htext (htext.skipSpace hbefore _) (by omega))
      (skipSpace_gap hafter (by decide) _) (readItems_spells hmore (by omega))

theorem readEntries_spells : ∀ {e : String × Json} {es : List (String × Json)} {cs rest : List Char} {n : Nat},
    SpellsEntries (e :: es) cs → 2 * cs.length + 1 ≤ n →
      readEntries n (cs ++ '\x7d' :: rest) = some (e :: es, rest)
  | _, _, _, _, 0 => fun _ hn => absurd hn (Nat.not_succ_le_zero _)
  | (k, _), [], _, rest, n + 1 => fun h hn => by
    obtain ⟨before, between, text, after, hbefore, hbetween, htext, hafter, rfl⟩ := h
    simp only [List.length_append, List.length_cons] at hn
    simp only [List.append_assoc, List.cons_append]
    exact readEntries_last k (skipSpace_quote hbefore k _)
      (readValue_spells htext (htext.skipSpace hbetween _) (by omega)) (skipSpace_gap hafter (by decide) rest)
  | (k, _), _ :: _, _, _, n + 1 => fun h hn => by
    obtain ⟨before, between, text, after, more, hbefore, hbetween, htext, hafter, hmore, rfl⟩ := h
    simp only [List.length_append, List.length_cons] at hn
    simp only [List.append_assoc, List.cons_append]
    exact readEntries_more k (skipSpace_quote hbefore k _)
      (readValue_spells htext (htext.skipSpace hbetween _) (by omega)) (skipSpace_gap hafter (by decide) _)
      (readEntries_spells hmore (by omega))

end

/-- A text of a value is read as the value. -/
theorem parse?_spells {j : Json} {text : String} (h : Spells j text.toList) : parse? text = some j := by
  have hopen : skipSpace text.toList = text.toList ++ [] := by
    have hgap : Gap [] := by simp [Gap]
    simpa using h.skipSpace hgap []
  have hread : readValue (2 * text.toList.length + 2) text.toList = some (j, []) :=
    readValue_spells h hopen (Nat.le_add_right _ _)
  simp only [parse?, hread]
  rfl

/-! ## Printing a text of a value -/

mutual

/-- A value without numbers. -/
def Plain : Json → Prop
  | .number _ => False
  | .array items => PlainItems items
  | .object entries => PlainEntries entries
  | _ => True

def PlainItems : List Json → Prop
  | [] => True
  | j :: js => Plain j ∧ PlainItems js

def PlainEntries : List (String × Json) → Prop
  | [] => True
  | (_, j) :: es => Plain j ∧ PlainEntries es

end

theorem plainItems_iff {items : List Json} : PlainItems items ↔ ∀ j ∈ items, Plain j := by
  induction items with
  | nil => simp [PlainItems]
  | cons j js ih => rw [PlainItems, ih, List.forall_mem_cons]

theorem plainEntries_iff {entries : List (String × Json)} : PlainEntries entries ↔ ∀ e ∈ entries, Plain e.2 := by
  induction entries with
  | nil => simp [PlainEntries]
  | cons e es ih => rw [PlainEntries, ih, List.forall_mem_cons]

theorem toList_quoted (s : String) : (Text.quoted s).toList = quote s := by
  rw [Text.quoted, String.toList_ofList, quote, List.cons_append]

theorem gap_nil : Gap [] := by simp [Gap]

mutual

theorem spells_compact : ∀ {j : Json}, Plain j → Spells j (compact j).toList
  | .null => fun _ => rfl
  | .bool true => fun _ => rfl
  | .bool false => fun _ => rfl
  | .number _ => fun h => absurd h id
  | .string s => fun _ => toList_quoted s
  | .array items => fun h => ⟨_, spells_compactItems h, by simp [compact]⟩
  | .object entries => fun h => ⟨_, spells_compactEntries h, by simp [compact]⟩

theorem spells_compactItems : ∀ {items : List Json}, PlainItems items →
    SpellsItems items (compactItems items).toList
  | [] => fun _ => gap_nil
  | [j] => fun h => ⟨[], _, [], gap_nil, spells_compact h.1, gap_nil, by simp [compactItems]⟩
  | j :: k :: js => fun h =>
    ⟨[], _, [], _, gap_nil, spells_compact h.1, gap_nil, spells_compactItems h.2, by simp [compactItems]⟩

theorem spells_compactEntries : ∀ {entries : List (String × Json)}, PlainEntries entries →
    SpellsEntries entries (compactEntries entries).toList
  | [] => fun _ => gap_nil
  | [(k, j)] => fun h =>
    ⟨[], [], _, [], gap_nil, gap_nil, spells_compact h.1, gap_nil, by simp [compactEntries, toList_quoted]⟩
  | (k, j) :: e :: es => fun h =>
    ⟨[], [], _, [], _, gap_nil, gap_nil, spells_compact h.1, gap_nil, spells_compactEntries h.2,
      by simp [compactEntries, toList_quoted]⟩

end

/-- Lines are broken and indented with white space. -/
theorem gap_breakLine (level : Nat) : Gap (breakLine level).toList := by
  have hspaces : Gap (String.join (List.replicate level "  ")).toList := by
    induction level with
    | zero => exact gap_nil
    | succ level ih =>
      rw [List.replicate_succ, String.join_cons, String.toList_append]
      exact List.forall_mem_append.2 ⟨by simp [isSpace], ih⟩
  rw [breakLine, String.toList_append]
  exact List.forall_mem_append.2 ⟨by simp [isSpace], hspaces⟩

mutual

theorem spells_pretty (level : Nat) : ∀ {j : Json}, Plain j → Spells j (pretty level j).toList
  | .null => fun _ => by simp [pretty, Spells]
  | .bool true => fun _ => by simp [pretty, Spells]
  | .bool false => fun _ => by simp [pretty, Spells]
  | .number _ => fun h => absurd h id
  | .string s => fun _ => by simp [pretty, Spells, toList_quoted]
  | .array [] => fun _ => ⟨[], gap_nil, by simp [pretty]⟩
  | .array (j :: js) => fun h =>
    ⟨_, spells_prettyItems (level + 1) (by simp) h (gap_breakLine level), by simp [pretty]⟩
  | .object [] => fun _ => ⟨[], gap_nil, by simp [pretty]⟩
  | .object (e :: es) => fun h =>
    ⟨_, spells_prettyEntries (level + 1) (by simp) h (gap_breakLine level), by simp [pretty]⟩

theorem spells_prettyItems (level : Nat) : ∀ {items : List Json} {gap : List Char}, items ≠ [] →
    PlainItems items → Gap gap → SpellsItems items ((prettyItems level items).toList ++ gap)
  | [], _ => fun hne _ _ => absurd rfl hne
  | [j], gap => fun _ h hgap =>
    ⟨_, _, gap, gap_breakLine level, spells_pretty level h.1, hgap, by simp [prettyItems]⟩
  | j :: k :: js, _ => fun _ h hgap =>
    ⟨_, _, [], _, gap_breakLine level, spells_pretty level h.1, gap_nil,
      spells_prettyItems level (by simp) h.2 hgap, by simp [prettyItems]⟩

theorem spells_prettyEntries (level : Nat) : ∀ {entries : List (String × Json)} {gap : List Char}, entries ≠ [] →
    PlainEntries entries → Gap gap → SpellsEntries entries ((prettyEntries level entries).toList ++ gap)
  | [], _ => fun hne _ _ => absurd rfl hne
  | [(k, j)], gap => fun _ h hgap =>
    ⟨_, [' '], _, gap, gap_breakLine level, by simp [Gap, isSpace], spells_pretty level h.1, hgap,
      by simp [prettyEntries, toList_quoted]⟩
  | (k, j) :: e :: es, _ => fun _ h hgap =>
    ⟨_, [' '], _, [], _, gap_breakLine level, by simp [Gap, isSpace], spells_pretty level h.1, gap_nil,
      spells_prettyEntries level (by simp) h.2 hgap, by simp [prettyEntries, toList_quoted]⟩

end

/-- What is written on one line is read back. -/
theorem parse?_compact {j : Json} (h : Plain j) : parse? (compact j) = some j := parse?_spells (spells_compact h)

/-- What is written over several lines is read back. -/
theorem parse?_pretty {j : Json} (h : Plain j) (level : Nat) : parse? (pretty level j) = some j :=
  parse?_spells (spells_pretty level h)

end TypedTemplate.Json
