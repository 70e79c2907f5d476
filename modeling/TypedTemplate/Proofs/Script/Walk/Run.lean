/-
A walk over bytes follows the scan by characters. Where a step of the scan begins, the walk stands between
characters or past the end, with the same frames open and the same text before its last byte that counts. One
step of the scan is one turn of the walk, except that in code a character takes a turn for each of its bytes and
in a literal one turn takes many steps.
-/
import TypedTemplate.Proofs.Script.Walk.Element

namespace TypedTemplate.Script.Native.Walk

open Text

variable {next : Place} {n pos : Nat} {frames frames' : List Frame}

/-! ## Turn after turn -/

theorem run_of_end {cs : List Char} {q : Place} (h : byteLength cs ≤ q.pos) : run cs q = .ok q := by
  rw [run, if_neg (by rw [length_bytes]; omega)]

theorem run_of_turn {cs : List Char} {q : Place} (hlt : q.pos < byteLength cs) (hturn : turn cs q = .ok next)
    (hnext : q.pos < next.pos) : run cs q = run cs next := by
  rw [run, if_pos (by rw [length_bytes]; exact hlt), hturn]
  exact if_pos hnext

theorem run_of_fault {cs : List Char} {q : Place} {e : Fault} (hlt : q.pos < byteLength cs)
    (hturn : turn cs q = .error e) : run cs q = .error e := by
  rw [run, if_pos (by rw [length_bytes]; exact hlt), hturn]

theorem turn_of_code {cs : List Char} {q : Place} {b : UInt8} (hcode : q.frames.head? ≠ some .literal)
    (hb : byteAt cs q.pos = some b) : turn cs q = codeTurn cs q b := by
  rw [turn, if_neg hcode, fetch_of_byteAt hb]
  rfl

/-- In a literal its text is passed, wherever it goes on. -/
theorem run_literal {cs : List Char} {q : Place} (h : q.frames.head? = some .literal) :
    run cs q = run cs (literalText cs q) := by
  by_cases hlt : q.pos < byteLength cs
  · exact run_of_turn hlt (by rw [turn, if_pos h]) (lt_literalText (by rw [length_bytes]; exact hlt))
  · rw [literalText_eq, byteAt_end (Nat.not_lt.1 hlt)]
    rfl

/-! ## The walk and the scan side by side -/

/-- A walk at `q` is where a scan is that has read `done` and has `rest` before it. -/
structure Follows (cs done rest : List Char) (p : Progress) (q : Place) : Prop where
  text : cs = done ++ rest
  place : Lands cs done rest 0 q.pos
  start : p.pos = byteLength done
  seen : p.seen = done.reverse
  frames : q.frames = p.frames
  last : Recalls cs p.last q.last

theorem Lands.min_eq {cs done rest : List Char} (h : Lands cs done rest n pos) (hcs : cs = done ++ rest) :
    min pos (bytes cs).length = byteLength (done ++ rest.take n) := by
  have hall : byteLength cs = byteLength (done ++ rest.take n) + byteLength (rest.drop n) := by
    rw [← byteLength_append, List.append_assoc, List.take_append_drop, hcs]
  rw [length_bytes]
  rcases h with rfl | ⟨hdrop, hle⟩
  · omega
  · rw [hdrop, byteLength_nil] at hall
    omega

theorem Lands.le {cs done rest : List Char} (h : Lands cs done rest n pos) (hcs : cs = done ++ rest) :
    byteLength done ≤ pos := by
  have hmin := h.min_eq hcs
  rw [byteLength_append] at hmin
  omega

theorem utf8Size_of_isIdle {c : Char} (h : isIdle c = true) : c.utf8Size = 1 := by
  simp only [isIdle, Bool.or_eq_true, beq_iff_eq] at h
  rcases h with (((rfl | rfl) | rfl) | rfl) | rfl <;> rfl

theorem popIf_eq (p : Progress) (kinds : List Frame) :
    p.popIf kinds = { p with frames := popIf kinds p.frames } := by
  obtain ⟨pos, seen, last, frames⟩ := p
  cases frames with
  | nil => rfl
  | cons f outer =>
    show (if kinds.contains f = true then _ else _) =
      Progress.mk pos seen last (if kinds.contains f = true then _ else _)
    by_cases hf : kinds.contains f = true
    · rw [if_pos hf, if_pos hf]
    · rw [if_neg hf, if_neg hf]

variable {cs done rest : List Char} {c : Char} {p : Progress} {q : Place}

theorem codeTurn_high {b : UInt8} (hhigh : 128 ≤ b) :
    codeTurn cs q b =
      .ok { q with pos := q.pos + 1, last := some (min (q.pos + 1) (bytes cs).length - 1) } := by
  have hne : ∀ d : Char, d.utf8Size = 1 → b ≠ byte d := fun d hd => ne_byte_of_high hhigh hd
  simp (disch := decide) only [codeTurn, hne, or_self, false_and, if_false]
  rw [Place.turned, ascii_of_le hhigh]
  rfl

/-- The walk comes to where a step of the scan ends. -/
def Reaches (cs done : List Char) (c : Char) (rest : List Char) (q : Place) (s : Step) : Prop :=
  ∃ next, run cs q = run cs next ∧ next.found = q.found ++ s.found.toList ∧
    Follows cs (done ++ c :: rest.take s.taken) (rest.drop s.taken) s.progress next

/-- The walk does what a step of the scan does. -/
def Tracks (cs done : List Char) (c : Char) (rest : List Char) (q : Place)
    (x : Except UnclosedTemplate Step) : Prop :=
  (∀ s, x = .ok s → Reaches cs done c rest q s) ∧ ∀ e, x = .error e → run cs q = .error (.unclosed e)

theorem tracks_ok {s : Step} (h : Reaches cs done c rest q s) : Tracks cs done c rest q (.ok s) := by
  constructor
  · rintro _ ⟨⟩
    exact h
  · rintro _ ⟨⟩

section

variable (h : Follows cs done (c :: rest) p q)
include h

theorem Follows.pos_eq : q.pos = byteLength done := by
  rcases h.place with hpos | ⟨hnil, -⟩
  · simpa using hpos
  · cases hnil

theorem Follows.pos_lt : q.pos < byteLength cs := by
  have hpos := c.utf8Size_pos
  rw [h.pos_eq, h.text, byteLength_append, byteLength_cons]
  omega

theorem Follows.byteAt_pos : byteAt cs q.pos = some (firstByte c) := by
  rw [h.pos_eq, h.text]
  exact byteAt_here done c rest

/-- After characters that were passed the walk still follows. -/
theorem Follows.pass (hland : Lands cs (done ++ [c]) rest n next.pos) {counts : Bool}
    (hlast : next.last = if counts then some (min next.pos (bytes cs).length - 1) else q.last)
    (hframes : next.frames = frames) :
    Follows cs (done ++ c :: rest.take n) (rest.drop n)
      (Progress.pass { p with frames } (c :: rest.take n) counts) next where
  text := by
    rw [h.text, List.append_assoc, List.cons_append, List.take_append_drop]
  place := by
    rcases hland with hpos | ⟨hnil, hle⟩
    · left
      rw [hpos, List.take_zero, List.append_nil, ← List.append_cons]
    · exact .inr ⟨hnil, hle⟩
  start := by
    rw [byteLength_append, ← h.start]
    rfl
  seen := by
    rw [List.reverse_append, ← h.seen]
    rfl
  frames := hframes
  last := by
    rw [hlast]
    cases counts with
    | false => exact h.last
    | true =>
      have hseen : (Progress.pass { p with frames } (c :: rest.take n) true).last =
          (done ++ c :: rest.take n).reverse := by
        rw [List.reverse_append, ← h.seen]
        rfl
      have hmin := hland.min_eq (by rw [h.text, List.append_cons])
      rw [hseen]
      refine .inr ⟨by simp, ?_, ?_⟩
      · rw [List.reverse_reverse, h.text]
        exact (List.prefix_append_right_inj done).2 ((List.prefix_cons_inj c).2 (List.take_prefix n rest))
      · rw [if_pos rfl, hmin, List.reverse_reverse, ← List.append_cons]

theorem Follows.byteAt_succ {d : Char} (hc : c.utf8Size = 1) (hd : d.utf8Size = 1) :
    byteAt cs (q.pos + 1) = some (byte d) ↔ rest.head? = some d := by
  rw [h.pos_eq, h.text]
  exact byteAt_next hc hd done rest

section

variable (hcode : q.frames.head? ≠ some .literal)
include hcode

/-- A turn of the walk in code that goes as far as a step of the scan. -/
theorem Follows.reaches (hturn : codeTurn cs q (firstByte c) = .ok next)
    (hland : Lands cs (done ++ [c]) rest n next.pos) {counts : Bool}
    (hlast : next.last = if counts then some (min next.pos (bytes cs).length - 1) else q.last)
    (hframes : next.frames = frames) {found : Option NativeTemplate} (hfound : next.found = q.found ++ found.toList) :
    Reaches cs done c rest q ⟨n, Progress.pass { p with frames } (c :: rest.take n) counts, found⟩ := by
  -- the turn moves on, since it passes the first character at least
  refine ⟨next, ?_, hfound, h.pass hland hlast hframes⟩
  have hle := hland.le (by rw [h.text, List.append_cons])
  rw [byteLength_concat] at hle
  have hpos := c.utf8Size_pos
  refine run_of_turn h.pos_lt ((turn_of_code hcode h.byteAt_pos).trans hturn) ?_
  rw [h.pos_eq]
  omega

theorem Follows.turned (hturn : codeTurn cs q (firstByte c) = .ok (q.turned cs (firstByte c) pos frames))
    (hland : Lands cs (done ++ [c]) rest n pos) (hframes : frames = frames') :
    Reaches cs done c rest q (.take { p with frames := frames' } c rest n (!isIdle c)) := by
  refine h.reaches hcode hturn hland ?_ hframes (List.append_nil q.found).symm
  show (if ascii isIdle (firstByte c) = true then _ else _) = _
  rw [ascii_firstByte fun _ => utf8Size_of_isIdle]
  cases isIdle c <;> rfl

/-- A turn at one ASCII character. -/
theorem Follows.single (hc : c.utf8Size = 1)
    (hturn : codeTurn cs q (firstByte c) = .ok (q.turned cs (firstByte c) (q.pos + 1) frames))
    (hframes : frames = frames') :
    Reaches cs done c rest q (.take { p with frames := frames' } c rest 0 (!isIdle c)) := by
  refine h.turned hcode hturn ?_ hframes
  rw [h.pos_eq, ← byteLength_concat_low hc]
  exact lands_here _ _ _

/-- A turn over a comment, which does not count. -/
theorem Follows.comment (hturn : codeTurn cs q (firstByte c) = .ok { q with pos })
    (hland : Lands cs (done ++ [c]) rest n pos) : Reaches cs done c rest q (.take p c rest n false) :=
  h.reaches hcode hturn hland rfl h.frames (List.append_nil q.found).symm

/-- In code a character that is not ASCII is passed byte by byte. -/
theorem Follows.high (hc : c.utf8Size ≠ 1) : Reaches cs done c rest q (.take p c rest 0 true) := by
  -- The walk after a byte of the character.
  let after : Nat → Place := fun pos => { q with pos, last := some (min pos (bytes cs).length - 1) }
  have hstep : ∀ r : Place, r.frames = q.frames → r.found = q.found → ∀ b, byteAt cs r.pos = some b → 128 ≤ b →
      run cs r = run cs (after (r.pos + 1)) := by
    intro r hframes hfound b hb hhigh
    have hlt : r.pos < byteLength cs := by
      rw [← length_bytes]
      exact (List.getElem?_eq_some_iff.1 hb).1
    refine run_of_turn hlt ?_ (Nat.lt_succ_self _)
    rw [turn_of_code (by rw [hframes]; exact hcode) hb, codeTurn_high hhigh, hframes, hfound]
  have hfirst : run cs q = run cs (after (byteLength done + 1)) := by
    rw [← h.pos_eq]
    exact hstep q rfl rfl _ h.byteAt_pos (firstByte_of_high hc)
  have hrest : run cs (after (byteLength done + 1)) = run cs (after (byteLength (done ++ [c]))) := by
    have hloop : ∀ pos b, byteAt (done ++ c :: rest) pos = some b → 128 ≤ b →
        run cs (after pos) = run cs (after (pos + 1)) := by
      intro pos b hb
      rw [← h.text] at hb
      exact hstep (after pos) rfl rfl b hb
    exact loop_char (f := fun pos => run cs (after pos)) hloop (.inl Nat.one_pos) c.utf8Size_pos
  exact ⟨after (byteLength (done ++ [c])), hfirst.trans hrest, (List.append_nil q.found).symm,
    h.pass (lands_here _ _ _) rfl h.frames⟩

/-! ## Steps in code -/

theorem Follows.element_tracks (hopen : atOpenTag (c :: rest) = true) :
    Tracks cs done c rest q (codeStep p c rest) := by
  obtain ⟨hnone, hsome⟩ := codeStep_of_atOpenTag (p := p) hopen
  obtain rfl := eq_of_atOpenTag hopen
  have hturn : codeTurn cs q (firstByte '<') = element cs q := by
    rw [codeTurn, if_neg (by decide), if_neg (by decide), if_neg fun hboth => absurd hboth.1 (by decide),
      if_neg fun hboth => absurd hboth.1 (by decide), if_neg (by decide), if_pos (by decide), h.pos_eq, h.text,
      openAt_eq, hopen]
    rfl
  cases hextent : extent? ('<' :: rest) with
  | none =>
    rw [hnone hextent, h.start]
    constructor
    · rintro _ ⟨⟩
    · rintro _ ⟨⟩
      refine run_of_fault h.pos_lt ((turn_of_code hcode h.byteAt_pos).trans (hturn.trans ?_))
      rw [h.text]
      exact element_of_none h.pos_eq hextent
  | some lengths =>
    obtain ⟨tag, content⟩ := lengths
    have htag : 0 < closeTag.length := by decide
    have hlast := h.last
    rw [h.text] at hlast
    have helement := element_of_some h.pos_eq h.start hlast h.frames hextent
    rw [← h.text, show tag + content + closeTag.length = tag + content + closeTag.length - 1 + 1 by omega,
      List.take_succ_cons, List.append_cons] at helement
    have hland : Lands cs (done ++ ['<']) rest (tag + content + closeTag.length - 1)
      (byteLength (done ++ ['<'] ++ rest.take (tag + content + closeTag.length - 1))) := .inl rfl
    rw [hsome tag content hextent]
    refine tracks_ok (h.reaches hcode (hturn.trans helement) hland ?_ h.frames rfl)
    rw [if_pos rfl, hland.min_eq (by rw [h.text, List.append_cons])]

/-- A slash starts a comment, a regular expression or nothing. -/
theorem Follows.slash_tracks (hslash : c = '/') : Tracks cs done c rest q (codeStep p c rest) := by
  subst hslash
  have hturn := codeTurn.eq_1 cs q (firstByte '/')
  rw [if_neg (by decide), if_neg (by decide)] at hturn
  rw [codeStep, if_neg (by decide), if_neg (by decide)]
  by_cases hline : rest.head? = some '/'
  · rw [if_pos ⟨by decide, (h.byteAt_succ rfl rfl).2 hline⟩, h.pos_eq, h.text, skipLineComment_eq,
      ← h.text] at hturn
    rw [if_pos ⟨rfl, hline⟩]
    refine tracks_ok (h.comment hcode hturn (.inl ?_))
    rw [← List.prefix_iff_eq_take.1 (List.takeWhile_prefix _), ← List.append_cons]
    rfl
  rw [if_neg fun hboth => hline ((h.byteAt_succ rfl rfl).1 hboth.2)] at hturn
  rw [if_neg fun hboth => hline hboth.2]
  by_cases hblock : rest.head? = some '*'
  · obtain ⟨more, rfl⟩ := List.head?_eq_some_iff.1 hblock
    rw [if_pos ⟨by decide, (h.byteAt_succ rfl rfl).2 hblock⟩, h.pos_eq, h.text, skipBlockComment_eq,
      ← h.text] at hturn
    rw [if_pos ⟨rfl, hblock⟩]
    refine tracks_ok (h.comment hcode hturn (.inl ?_))
    rw [← List.append_cons]
  rw [if_neg fun hboth => hblock ((h.byteAt_succ rfl rfl).1 hboth.2), if_pos (by decide),
    regexAllowed_eq h.last] at hturn
  rw [if_neg fun hboth => hblock hboth.2]
  by_cases hallowed : p.regexAllowed = true
  · rw [hallowed] at hturn
    rw [if_pos ⟨rfl, hallowed⟩]
    have hland := skipRegex_lands false rest (done ++ ['/'])
    rw [← List.append_cons, ← h.text, byteLength_concat_low rfl, ← h.pos_eq] at hland
    exact tracks_ok (h.turned hcode hturn hland h.frames)
  · have hopen : ¬ atOpenTag ('/' :: rest) = true := fun hopen => absurd (eq_of_atOpenTag hopen) (by decide)
    rw [Bool.eq_false_of_not_eq_true hallowed] at hturn
    rw [if_neg fun hboth => hallowed hboth.2, if_neg hopen, if_neg (by decide), if_neg (by decide),
      if_neg (by decide), if_neg (by decide)]
    exact tracks_ok (h.single hcode rfl hturn h.frames)

theorem Follows.quote_tracks (hquote : c = '\'' ∨ c = '"') : Tracks cs done c rest q (codeStep p c rest) := by
  have hc : c.utf8Size = 1 ∧ isIdle c = false := by rcases hquote with rfl | rfl <;> decide
  have hturn := codeTurn.eq_1 cs q (firstByte c)
  rw [if_pos (hquote.imp (firstByte_eq_byte rfl).2 (firstByte_eq_byte rfl).2)] at hturn
  have hland := skipString_lands hc.1 rest (done ++ [c])
  rw [← List.append_cons, ← h.text, byteLength_concat_low hc.1, ← h.pos_eq, ← firstByte_of_low hc.1] at hland
  have hreach := h.turned hcode hturn hland h.frames
  rw [hc.2] at hreach
  rw [codeStep, if_pos hquote]
  exact tracks_ok hreach

theorem Follows.codeStep_tracks : Tracks cs done c rest q (codeStep p c rest) := by
  by_cases hquote : c = '\'' ∨ c = '"'
  · exact h.quote_tracks hcode hquote
  by_cases hslash : c = '/'
  · exact h.slash_tracks hcode hslash
  by_cases hopen : atOpenTag (c :: rest) = true
  · exact h.element_tracks hcode hopen
  -- What is left takes one character, in the walk by its byte and in the scan by itself.
  have hturn := codeTurn.eq_1 cs q (firstByte c)
  simp only [firstByte_eq_byte (d := '\'') rfl, firstByte_eq_byte (d := '"') rfl,
    firstByte_eq_byte (d := '`') rfl, firstByte_eq_byte (d := '/') rfl, firstByte_eq_byte (d := '<') rfl,
    firstByte_eq_byte (d := '{') rfl, firstByte_eq_byte (d := '(') rfl, firstByte_eq_byte (d := '[') rfl,
    firstByte_eq_byte (d := ')') rfl, firstByte_eq_byte (d := ']') rfl, firstByte_eq_byte (d := '}') rfl,
    hslash, false_and, if_false] at hturn
  rw [if_neg hquote] at hturn
  rw [codeStep, if_neg hquote]
  by_cases htick : c = '`'
  · rw [if_pos htick] at hturn ⊢
    subst htick
    exact tracks_ok (h.single hcode rfl hturn (congrArg _ h.frames))
  rw [if_neg htick] at hturn
  rw [if_neg htick, if_neg fun hboth => hslash hboth.1, if_neg fun hboth => hslash hboth.1,
    if_neg fun hboth => hslash hboth.1, if_neg hopen]
  by_cases hangle : c = '<'
  · rw [if_pos hangle, h.pos_eq, h.text, openAt_eq, ← h.text, Bool.eq_false_of_not_eq_true hopen,
      ← h.pos_eq] at hturn
    subst hangle
    rw [if_neg (by decide), if_neg (by decide), if_neg (by decide), if_neg (by decide)]
    exact tracks_ok (h.single hcode rfl hturn h.frames)
  rw [if_neg hangle] at hturn
  by_cases hbrace : c = '{'
  · have hframe : braceFrame cs q.pos = .ok p.braceFrame := by
      rw [h.pos_eq, h.text]
      exact braceFrame_eq h.seen
    rw [if_pos hbrace, hframe] at hturn
    rw [if_pos hbrace]
    subst hbrace
    exact tracks_ok (h.single hcode rfl hturn (congrArg _ h.frames))
  rw [if_neg hbrace] at hturn ⊢
  by_cases hopening : c = '(' ∨ c = '['
  · rw [if_pos hopening] at hturn ⊢
    have hc : c.utf8Size = 1 ∧ isIdle c = false := by rcases hopening with rfl | rfl <;> decide
    have hreach := h.single hcode hc.1 hturn (congrArg _ h.frames)
    rw [hc.2] at hreach
    exact tracks_ok hreach
  rw [if_neg hopening] at hturn ⊢
  by_cases hclosing : c = ')' ∨ c = ']'
  · rw [if_pos hclosing] at hturn ⊢
    have hc : c.utf8Size = 1 ∧ isIdle c = false := by rcases hclosing with rfl | rfl <;> decide
    have hreach := h.single hcode hc.1 hturn (congrArg _ h.frames)
    rw [hc.2, ← popIf_eq] at hreach
    exact tracks_ok hreach
  rw [if_neg hclosing] at hturn ⊢
  by_cases hend : c = '}'
  · rw [if_pos hend] at hturn ⊢
    subst hend
    rw [popIf_eq]
    exact tracks_ok (h.single hcode rfl hturn (congrArg _ h.frames))
  rw [if_neg hend] at hturn ⊢
  by_cases hc : c.utf8Size = 1
  · exact tracks_ok (h.single hcode hc hturn h.frames)
  · have hidle : isIdle c = false := Bool.eq_false_of_not_eq_true fun hidle => hc (utf8Size_of_isIdle hidle)
    rw [hidle]
    exact tracks_ok (h.high hcode hc)

end

/-! ## Steps in literals -/

section

variable (hliteral : q.frames.head? = some .literal)
include hliteral

/-- A step over text that one turn passes with what follows it. -/
theorem Follows.literal_goes_on (htext : literalText cs q = literalText cs { q with pos })
    (hland : Lands cs (done ++ [c]) rest n pos) : Reaches cs done c rest q (.take p c rest n false) := by
  refine ⟨{ q with pos }, ?_, (List.append_nil _).symm, h.pass hland rfl h.frames⟩
  have hnext : ({ q with pos } : Place).frames.head? = some .literal := hliteral
  rw [run_literal hliteral, run_literal hnext, htext]

/-- A step at which the text of a literal ends. -/
theorem Follows.literal_stops (htext : literalText cs q = { q with pos, frames, last := some (pos - 1) })
    (hpos : pos = byteLength (done ++ [c] ++ rest.take n)) (hframes : frames = frames') :
    Reaches cs done c rest q (.take { p with frames := frames' } c rest n true) := by
  have hland : Lands cs (done ++ [c]) rest n pos := .inl hpos
  refine ⟨_, (run_literal hliteral).trans (congrArg (run cs) htext), (List.append_nil _).symm,
    h.pass hland ?_ hframes⟩
  rw [if_pos rfl, hland.min_eq (by rw [h.text, List.append_cons]), hpos]

theorem Follows.literalStep_reaches : Reaches cs done c rest q (literalStep p c rest) := by
  have hq : { q with pos := byteLength done } = q := by rw [← h.pos_eq]
  have htext := literalText_eq cs q
  rw [h.byteAt_pos, Option.elim_some] at htext
  rw [literalStep]
  by_cases hescape : c = '\\'
  · rw [if_pos hescape]
    subst hescape
    cases rest with
    | nil =>
      rw [if_pos (by decide)] at htext
      refine h.literal_goes_on hliteral htext (.inr ⟨rfl, ?_⟩)
      rw [h.text, byteLength_concat_low rfl, h.pos_eq]
      exact Nat.le_succ _
    | cons d rest =>
      have hescaped : literalText (done ++ '\\' :: d :: rest) { q with pos := byteLength done } = _ :=
        literalText_escape q
      rw [← h.text, hq] at hescaped
      exact h.literal_goes_on hliteral hescaped (lands_here _ _ _).cons
  rw [if_neg hescape]
  by_cases htick : c = '`'
  · rw [if_pos htick]
    subst htick
    rw [if_neg (by decide), if_pos (by decide)] at htext
    have hframes : q.frames.tail = popIf [.literal] p.frames := by
      obtain ⟨outer, houter⟩ := List.head?_eq_some_iff.1 hliteral
      rw [← h.frames, houter]
      rfl
    rw [popIf_eq]
    refine h.literal_stops hliteral htext ?_ hframes
    rw [h.pos_eq, List.take_zero, List.append_nil, byteLength_concat_low rfl]
  rw [if_neg htick]
  by_cases hdollar : c = '$' ∧ rest.head? = some '{'
  · rw [if_pos hdollar]
    obtain ⟨rfl, hbrace⟩ := hdollar
    obtain ⟨more, rfl⟩ := List.head?_eq_some_iff.1 hbrace
    have hnext : byteAt cs (q.pos + 1) = some (byte '{') := (h.byteAt_succ rfl rfl).2 rfl
    rw [if_neg (by decide), if_neg (by decide), if_pos ⟨by decide, hnext⟩] at htext
    refine h.literal_stops hliteral htext ?_ (congrArg _ h.frames)
    rw [h.pos_eq, List.take_succ_cons, List.take_zero, byteLength_append, byteLength_append]
    rfl
  · rw [if_neg hdollar]
    have hchar : literalText (done ++ c :: rest) { q with pos := byteLength done } = _ :=
      literalText_char q hescape htick hdollar
    rw [← h.text, hq] at hchar
    exact h.literal_goes_on hliteral hchar (lands_here _ _ _)

end

/-! ## The whole walk -/

theorem Follows.step_tracks : Tracks cs done c rest q (step p c rest) := by
  rw [step, ← h.frames]
  by_cases hliteral : q.frames.head? = some .literal
  · rw [if_pos hliteral]
    exact tracks_ok (h.literalStep_reaches hliteral)
  · rw [if_neg hliteral]
    exact h.codeStep_tracks hliteral

end

/-- From where it follows the scan on, the walk finds what the scan finds. -/
theorem Follows.run_eq (h : Follows cs done rest p q) :
    (run cs q).map (·.found) = ((scanFrom p rest).map (q.found ++ ·)).mapError Fault.unclosed := by
  fun_induction scanFrom p rest generalizing done q with
  | case1 p =>
    have hend : byteLength cs ≤ q.pos := by
      have hle := h.place.le h.text
      rw [h.text, List.append_nil]
      exact hle
    rw [run_of_end hend]
    exact congrArg Except.ok (List.append_nil q.found).symm
  | case2 p c rest e hstep =>
    rw [h.step_tracks.2 e hstep]
    rfl
  | case3 p c rest s hstep ih =>
    -- one step of the scan: the walk goes on where it ends, with what it found so far
    obtain ⟨next, hrun, hfound, hnext⟩ := h.step_tracks.1 s hstep
    rw [hrun, ih hnext, hfound]
    cases scanFrom s.progress (rest.drop s.taken) with
    | error e => rfl
    | ok ts => exact congrArg Except.ok (List.append_assoc _ _ _)

theorem follows_start (cs : List Char) : Follows cs [] cs {} {} where
  text := rfl
  place := lands_here _ _ _
  start := rfl
  seen := rfl
  frames := rfl
  last := Or.inl ⟨rfl, rfl⟩

/-- The walk over bytes finds what the scan by characters finds. Slices that leave the text or cut a character,
bytes past the end and turns that do not move on would show as other faults. -/
theorem scan_eq (source : String) : scan source = (Native.scan source).mapError Fault.unclosed := by
  rw [scan, (follows_start source.toList).run_eq, Native.scan]
  cases scanFrom {} source.toList <;> rfl

end TypedTemplate.Script.Native.Walk
