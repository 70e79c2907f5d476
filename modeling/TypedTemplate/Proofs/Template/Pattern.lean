/-
Tokens as patterns. Every kind of token is declared by regular expressions over classes of characters, and the texts
of its tokens are their language. The lemmas say, kind by kind, which texts these are.
-/
import Mathlib.Computability.Language
import Mathlib.Tactic
import TypedTemplate.Template.Token

namespace TypedTemplate.Template

open Computability Text

/-- A regular expression over classes of characters. -/
inductive Pattern where
  | one (p : Char → Bool)
  | empty
  | seq (a b : Pattern)
  | alt (a b : Pattern)
  | star (a : Pattern)

namespace Pattern

/-- The texts that match a pattern. -/
def language : Pattern → Language Char
  | one p => {w | ∃ c, p c = true ∧ w = [c]}
  | empty => 1
  | seq a b => a.language * b.language
  | alt a b => a.language + b.language
  | star a => a.language∗

def char (c : Char) : Pattern := one (· == c)

def literal (text : String) : Pattern := text.toList.foldr (fun c rest => seq (char c) rest) empty

def plus (a : Pattern) : Pattern := seq a (star a)

def opt (a : Pattern) : Pattern := alt a empty

def digit : Pattern := one fun c => '0' ≤ c && c ≤ '9'

/-- Between the quotes of a string: any character but the quote and a backslash, and a backslash with the character
after it, which is no line feed. -/
def inside (quote : Char) : Pattern :=
  star (alt (one fun c => c != quote && c != '\\') (seq (char '\\') (one (· != '\n'))))

def quoted (quote : Char) : Pattern := seq (char quote) (seq (inside quote) (char quote))

/-- A decimal number, with a sign and a fraction or without. -/
def decimal : Pattern :=
  seq (opt (char '-')) (seq (plus digit) (opt (seq (char '.') (plus digit))))

/-- A run of characters that are neither white space nor marks. -/
def word : Pattern :=
  plus (one fun c => !isBlank c && !("!\"#%&'()*+,./;<=>@[\\]^`\x7b|\x7d~".toList.contains c))

end Pattern

namespace TokenKind

/-- How tokens of a kind are written, for the kinds that have one way to be written. -/
def spelling? : TokenKind → Option String
  | .closeTriple => some "\x7d\x7d\x7d"
  | .close => some "\x7d\x7d"
  | .tilde => some "~"
  | .openParen => some "("
  | .closeParen => some ")"
  | .equals => some "="
  | .pipe => some "|"
  | .dot => some "."
  | .atSign => some "@"
  | .hash => some "#"
  | .slash => some "/"
  | .string | .number | .name | .invalid | .eof => none

/-- The patterns that a kind is declared by. -/
def patterns : TokenKind → List Pattern
  | .string => [.quoted '"', .quoted '\'']
  | .number => [.decimal]
  | .name => [.word]
  | kind => (kind.spelling?.map Pattern.literal).toList

/-- The texts of the tokens of a kind. -/
def language (kind : TokenKind) : Language Char := {w | ∃ p ∈ kind.patterns, w ∈ p.language}

end TokenKind

/-! ## Texts that match -/

namespace Pattern

variable {w : List Char} {p : Char → Bool} {a b : Pattern}

theorem mem_one : w ∈ (one p).language ↔ ∃ c, p c = true ∧ w = [c] := Iff.rfl

theorem mem_char {c : Char} : w ∈ (char c).language ↔ w = [c] := by
  simp [char, mem_one]

theorem mem_seq : w ∈ (seq a b).language ↔ ∃ u ∈ a.language, ∃ v ∈ b.language, u ++ v = w := Iff.rfl

theorem mem_opt : w ∈ (opt a).language ↔ w ∈ a.language ∨ w = [] := Iff.rfl

theorem mem_literal {text : String} : w ∈ (literal text).language ↔ w = text.toList := by
  unfold literal
  generalize text.toList = cs
  induction cs generalizing w with
  | nil => rfl
  | cons c cs ih =>
    rw [List.foldr_cons, mem_seq]
    constructor
    · rintro ⟨u, hu, v, hv, rfl⟩
      rw [mem_char.1 hu, ih.1 hv]
      rfl
    · rintro rfl
      exact ⟨[c], mem_char.2 rfl, cs, ih.2 rfl, rfl⟩

theorem mem_star_one : w ∈ (star (one p)).language ↔ ∀ c ∈ w, p c = true := by
  constructor
  · rintro ⟨parts, rfl, hparts⟩ c hc
    obtain ⟨part, hpart, hc⟩ := List.mem_flatten.1 hc
    obtain ⟨d, hd, rfl⟩ := hparts part hpart
    rw [List.mem_singleton.1 hc]
    exact hd
  · intro hall
    refine ⟨w.map fun c => [c], (List.flatMap_singleton' w).symm, ?_⟩
    intro part hpart
    obtain ⟨c, hc, rfl⟩ := List.mem_map.1 hpart
    exact ⟨c, hall c hc, rfl⟩

theorem mem_plus_one : w ∈ (plus (one p)).language ↔ w ≠ [] ∧ ∀ c ∈ w, p c = true := by
  constructor
  · rintro ⟨_, ⟨c, hc, rfl⟩, v, hv, rfl⟩
    exact ⟨List.cons_ne_nil _ _, List.forall_mem_cons.2 ⟨hc, mem_star_one.1 hv⟩⟩
  · rintro ⟨hne, hall⟩
    obtain ⟨c, v, rfl⟩ := List.exists_cons_of_ne_nil hne
    obtain ⟨hc, hv⟩ := List.forall_mem_cons.1 hall
    exact ⟨[c], ⟨c, hc, rfl⟩, v, mem_star_one.2 hv, rfl⟩

theorem mem_quoted {quote : Char} :
    w ∈ (quoted quote).language ↔ ∃ body ∈ (inside quote).language, w = quote :: (body ++ [quote]) := by
  constructor
  · rintro ⟨u, hu, _, ⟨body, hbody, v, hv, rfl⟩, rfl⟩
    refine ⟨body, hbody, ?_⟩
    rw [mem_char.1 hu, mem_char.1 hv]
    rfl
  · rintro ⟨body, hbody, rfl⟩
    exact ⟨[quote], mem_char.2 rfl, _, ⟨body, hbody, [quote], mem_char.2 rfl, rfl⟩, rfl⟩

/-- A run of digits, at least one. -/
def Digits (ds : List Char) : Prop := ds ≠ [] ∧ ∀ c ∈ ds, c.isDigit = true

theorem mem_plus_digit : w ∈ (plus digit).language ↔ Digits w := mem_plus_one

/-- What can follow the whole part of a number. -/
def Fraction (w : List Char) : Prop := w = [] ∨ ∃ ds, Digits ds ∧ w = '.' :: ds

theorem mem_decimal : w ∈ decimal.language ↔ ∃ sign whole fraction, (sign = ['-'] ∨ sign = []) ∧ Digits whole ∧
    Fraction fraction ∧ w = sign ++ (whole ++ fraction) := by
  have hfraction {v : List Char} :
      v ∈ (opt (seq (char '.') (plus digit))).language ↔ Fraction v := by
    rw [mem_opt, Fraction, or_comm]
    refine or_congr_right ⟨?_, ?_⟩
    · rintro ⟨dot, hdot, ds, hds, rfl⟩
      rw [mem_char.1 hdot]
      exact ⟨ds, mem_plus_digit.1 hds, rfl⟩
    · rintro ⟨ds, hds, rfl⟩
      exact ⟨['.'], mem_char.2 rfl, ds, mem_plus_digit.2 hds, rfl⟩
  constructor
  · rintro ⟨sign, hsign, _, ⟨whole, hwhole, fraction, hf, rfl⟩, rfl⟩
    exact ⟨sign, whole, fraction, (mem_opt.1 hsign).imp_left mem_char.1, mem_plus_digit.1 hwhole,
      hfraction.1 hf, rfl⟩
  · rintro ⟨sign, whole, fraction, hsign, hwhole, hf, rfl⟩
    exact ⟨sign, mem_opt.2 (hsign.imp_left mem_char.2), _,
      ⟨whole, mem_plus_digit.2 hwhole, fraction, hfraction.2 hf, rfl⟩, rfl⟩

theorem mem_word : w ∈ word.language ↔ w ≠ [] ∧ ∀ c ∈ w, Lexer.isNameChar c = true := mem_plus_one

/-! ### Inside a string -/

section Inside

variable {quote : Char} {body v : List Char}

theorem nil_mem_inside : [] ∈ (inside quote).language := ⟨[], rfl, fun _ h => absurd h List.not_mem_nil⟩

theorem append_mem_inside (hv : v ∈ (inside quote).language) (hw : w ∈ (inside quote).language) :
    v ++ w ∈ (inside quote).language := by
  obtain ⟨parts, rfl, hparts⟩ := hv
  obtain ⟨more, rfl, hmore⟩ := hw
  exact ⟨parts ++ more, List.flatten_append.symm, List.forall_mem_append.2 ⟨hparts, hmore⟩⟩

theorem plain_mem_inside {c : Char} (hquote : c ≠ quote) (hescape : c ≠ '\\') : [c] ∈ (inside quote).language :=
  ⟨[[c]], rfl, by
    intro part hpart
    rw [List.mem_singleton.1 hpart]
    exact .inl ⟨c, by simp [hquote, hescape], rfl⟩⟩

theorem escaped_mem_inside {c : Char} (h : c ≠ '\n') : ['\\', c] ∈ (inside quote).language :=
  ⟨[['\\', c]], rfl, by
    intro part hpart
    rw [List.mem_singleton.1 hpart]
    exact .inr ⟨['\\'], mem_char.2 rfl, [c], ⟨c, by simp [h], rfl⟩, rfl⟩⟩

/-- Induction over what stands between the quotes of a string. -/
@[elab_as_elim]
theorem inside_induction {motive : (w : List Char) → w ∈ (inside quote).language → Prop}
    (nil : motive [] nil_mem_inside)
    (plain : ∀ c w hquote hescape hw, motive w hw →
      motive (c :: w) (append_mem_inside (plain_mem_inside hquote hescape) hw))
    (escaped : ∀ c w hc hw, motive w hw → motive ('\\' :: c :: w) (append_mem_inside (escaped_mem_inside hc) hw))
    (h : w ∈ (inside quote).language) : motive w h := by
  obtain ⟨parts, rfl, hparts⟩ := h
  induction parts with
  | nil => exact nil
  | cons part parts ih =>
    obtain ⟨hpart, hrest⟩ := List.forall_mem_cons.1 hparts
    rcases hpart with ⟨c, hc, rfl⟩ | ⟨_, hslash, _, ⟨c, hc, rfl⟩, rfl⟩
    · obtain ⟨hquote, hescape⟩ : c ≠ quote ∧ c ≠ '\\' := by simpa using hc
      exact plain c _ hquote hescape _ (ih hrest)
    · cases mem_char.1 hslash
      exact escaped c _ (by simpa using hc) _ (ih hrest)

/-- What can be read of a string after its opening quote, and whether the string is closed: all of it, or a part that
can go on, where a backslash may wait for the character after it. -/
inductive Extent (quote : Char) : List Char → Bool → Prop
  | closed {body : List Char} : body ∈ (inside quote).language → Extent quote (body ++ [quote]) true
  | ended {body : List Char} : body ∈ (inside quote).language → Extent quote body false
  | cut {body : List Char} : body ∈ (inside quote).language → Extent quote (body ++ ['\\']) false

theorem Extent.append {closed : Bool} (hv : v ∈ (inside quote).language) (h : Extent quote w closed) :
    Extent quote (v ++ w) closed := by
  cases h with
  | closed hbody => exact List.append_assoc .. ▸ .closed (append_mem_inside hv hbody)
  | ended hbody => exact .ended (append_mem_inside hv hbody)
  | cut hbody => exact List.append_assoc .. ▸ .cut (append_mem_inside hv hbody)

/-- What comes before some part of what stands in a string is a part that can go on. -/
theorem extent_of_leads (hbody : body ∈ (inside quote).language) (hv : v <+: body) : Extent quote v false := by
  induction hbody using inside_induction generalizing v with
  | nil =>
    rw [List.prefix_nil.1 hv]
    exact .ended nil_mem_inside
  | plain c w hplain hescape _ ih =>
    rcases List.prefix_cons_iff.1 hv with rfl | ⟨v, rfl, hw⟩
    · exact .ended nil_mem_inside
    · exact (ih hw).append (plain_mem_inside hplain hescape)
  | escaped c w hc _ ih =>
    rcases List.prefix_cons_iff.1 hv with rfl | ⟨v, rfl, hcw⟩
    · exact .ended nil_mem_inside
    · rcases List.prefix_cons_iff.1 hcw with rfl | ⟨v, rfl, hw⟩
      · exact .cut nil_mem_inside
      · exact (ih hw).append (escaped_mem_inside hc)

end Inside

end Pattern

namespace TokenKind

open Pattern

variable {kind : TokenKind} {w : List Char}

theorem mem_language : w ∈ kind.language ↔ ∃ p ∈ kind.patterns, w ∈ p.language := Iff.rfl

theorem mem_language_of_patterns {p : Pattern} (h : kind.patterns = [p]) :
    w ∈ kind.language ↔ w ∈ p.language := by
  rw [mem_language, h]
  constructor
  · rintro ⟨q, hq, hw⟩
    rwa [List.mem_singleton.1 hq] at hw
  · intro hw
    exact ⟨p, List.mem_singleton.2 rfl, hw⟩

theorem mem_language_of_spelling {text : String} (h : kind.spelling? = some text) :
    w ∈ kind.language ↔ w = text.toList := by
  have hpatterns : kind.patterns = [.literal text] := by
    cases kind with
    | string => cases h
    | number => cases h
    | name => cases h
    | _ => simp only [patterns, h, Option.map_some, Option.toList_some]
  rw [mem_language_of_patterns hpatterns, mem_literal]

theorem mem_language_string : w ∈ TokenKind.string.language ↔
    ∃ quote, (quote = '"' ∨ quote = '\'') ∧ ∃ body ∈ (inside quote).language, w = quote :: (body ++ [quote]) := by
  rw [mem_language, patterns]
  constructor
  · rintro ⟨p, hp, hw⟩
    rcases List.mem_pair.1 hp with rfl | rfl
    · exact ⟨'"', .inl rfl, mem_quoted.1 hw⟩
    · exact ⟨'\'', .inr rfl, mem_quoted.1 hw⟩
  · rintro ⟨quote, hquote, hw⟩
    refine ⟨.quoted quote, ?_, mem_quoted.2 hw⟩
    rcases hquote with rfl | rfl <;> simp

theorem mem_language_number : w ∈ TokenKind.number.language ↔ w ∈ decimal.language :=
  mem_language_of_patterns rfl

theorem mem_language_name :
    w ∈ TokenKind.name.language ↔ w ≠ [] ∧ ∀ c ∈ w, Lexer.isNameChar c = true := by
  rw [mem_language_of_patterns (p := .word) rfl, mem_word]

/-- No text is a token of the kinds that have no pattern. -/
theorem notMem_language_of_none (h : kind = .invalid ∨ kind = .eof) : w ∉ kind.language := by
  rcases h with rfl | rfl <;> rintro ⟨p, hp, -⟩ <;> cases hp

/-! ### The characters that tokens begin with -/

variable {x : Char} {v : List Char}

/-- The tokens that are a single mark. -/
def ofMark? : Char → Option TokenKind
  | '~' => some .tilde
  | '(' => some .openParen
  | ')' => some .closeParen
  | '=' => some .equals
  | '|' => some .pipe
  | '.' => some .dot
  | '@' => some .atSign
  | '#' => some .hash
  | '/' => some .slash
  | _ => none

theorem isNameChar_of_isDigit (h : x.isDigit = true) : Lexer.isNameChar x = true := by
  have hbounds : 48 ≤ x.toNat ∧ x.toNat ≤ 57 := by
    have hvals : x.val ≥ '0'.val ∧ x.val ≤ '9'.val := by
      rw [Char.isDigit, Bool.and_eq_true, decide_eq_true_iff, decide_eq_true_iff] at h
      exact h
    exact ⟨UInt32.le_iff_toNat_le.1 hvals.1, UInt32.le_iff_toNat_le.1 hvals.2⟩
  have hx : x = Char.ofNat x.toNat := (Char.ofNat_toNat x).symm
  generalize x.toNat = n at hbounds hx
  obtain ⟨hlower, hupper⟩ := hbounds
  rw [hx]
  interval_cases n <;> decide

/-- What a token can be, by its first character. -/
inductive Begins (x : Char) : TokenKind → List Char → Prop
  | mark {kind : TokenKind} : ofMark? x = some kind → Begins x kind []
  | close : x = '}' → Begins x .close ['}']
  | closeTriple : x = '}' → Begins x .closeTriple ['}', '}']
  | string {body : List Char} : x = '"' ∨ x = '\'' → body ∈ (inside x).language → Begins x .string (body ++ [x])
  | number {v : List Char} : Lexer.isNameChar x = true → Begins x .number v
  | name {v : List Char} : Lexer.isNameChar x = true → Begins x .name v

theorem nil_notMem_language : [] ∉ kind.language := by
  intro h
  cases kind with
  | string =>
    obtain ⟨quote, -, body, -, heq⟩ := mem_language_string.1 h
    cases heq
  | number =>
    obtain ⟨sign, whole, fraction, -, hwhole, -, heq⟩ := mem_decimal.1 (mem_language_number.1 h)
    exact hwhole.1 (List.append_eq_nil_iff.1 (List.append_eq_nil_iff.1 heq.symm).2).1
  | name => exact (mem_language_name.1 h).1 rfl
  | invalid => exact notMem_language_of_none (.inl rfl) h
  | eof => exact notMem_language_of_none (.inr rfl) h
  | _ => cases (mem_language_of_spelling rfl).1 h

theorem begins_of_mem (h : x :: v ∈ kind.language) : Begins x kind v := by
  cases kind with
  | string =>
    obtain ⟨quote, hquote, body, hbody, heq⟩ := mem_language_string.1 h
    cases heq
    exact .string hquote hbody
  | number =>
    obtain ⟨sign, whole, fraction, hsign, hwhole, -, heq⟩ := mem_decimal.1 (mem_language_number.1 h)
    rcases hsign with rfl | rfl
    · cases heq
      exact .number (by decide)
    · obtain ⟨d, ds, rfl⟩ := List.exists_cons_of_ne_nil hwhole.1
      cases heq
      exact .number (isNameChar_of_isDigit (hwhole.2 x List.mem_cons_self))
  | name => exact .name ((mem_language_name.1 h).2 x List.mem_cons_self)
  | invalid => exact absurd h (notMem_language_of_none (.inl rfl))
  | eof => exact absurd h (notMem_language_of_none (.inr rfl))
  | close => 
    cases (mem_language_of_spelling rfl).1 h
    exact .close rfl
  | closeTriple =>
    cases (mem_language_of_spelling rfl).1 h
    exact .closeTriple rfl
  | _ =>
    cases (mem_language_of_spelling rfl).1 h
    exact .mark rfl

theorem isNameChar_of_ofMark? (h : ofMark? x = some kind) : Lexer.isNameChar x = false := by
  unfold ofMark? at h
  split at h
  case h_10 => cases h
  all_goals decide

theorem mem_language_of_ofMark? (h : ofMark? x = some kind) : [x] ∈ kind.language := by
  unfold ofMark? at h
  split at h
  case h_10 => cases h
  all_goals
    cases h
    exact (mem_language_of_spelling rfl).2 rfl

/-- Only closing braces begin with a closing brace. -/
theorem Begins.of_brace (h : Begins '}' kind v) :
    kind = .close ∧ v = ['}'] ∨ kind = .closeTriple ∧ v = ['}', '}'] := by
  cases h with
  | mark hmark => cases hmark
  | close => exact .inl ⟨rfl, rfl⟩
  | closeTriple => exact .inr ⟨rfl, rfl⟩
  | string hx => rcases hx with hx | hx <;> cases hx
  | number hx => exact absurd hx (by decide)
  | name hx => exact absurd hx (by decide)

/-- Only a string begins with a quote. -/
theorem Begins.of_quote (hx : x = '"' ∨ x = '\'') (h : Begins x kind v) :
    kind = .string ∧ ∃ body ∈ (inside x).language, v = body ++ [x] := by
  have hname : Lexer.isNameChar x = false := by rcases hx with rfl | rfl <;> decide
  cases h with
  | mark hmark => rcases hx with rfl | rfl <;> cases hmark
  | close hclose => cases hclose; rcases hx with hx | hx <;> cases hx
  | closeTriple hclose => cases hclose; rcases hx with hx | hx <;> cases hx
  | string _ hbody => exact ⟨rfl, _, hbody, rfl⟩
  | number hx => cases hname.symm.trans hx
  | name hx => cases hname.symm.trans hx

/-- All else that begins a token begins a word. -/
theorem Begins.of_word (hmark : ofMark? x = none) (hclose : x ≠ '}') (hquote : ¬(x = '"' ∨ x = '\''))
    (h : Begins x kind v) : (kind = .number ∨ kind = .name) ∧ Lexer.isNameChar x = true := by
  cases h with
  | mark h => cases hmark.symm.trans h
  | close hx => exact absurd hx hclose
  | closeTriple hx => exact absurd hx hclose
  | string hx => exact absurd hx hquote
  | number hx => exact ⟨.inl rfl, hx⟩
  | name hx => exact ⟨.inr rfl, hx⟩

end TokenKind

end TypedTemplate.Template
