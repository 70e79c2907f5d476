/-
Class heads. The text before a brace ends in one if somewhere the word `class` starts that is followed by a name
and by what the class extends, each optional, up to the end of the text. A slash ends what can be told of such
a tail, so a comment that does not hold the word tells nothing.
-/
import TypedTemplate.Proofs.Script.Lexeme

namespace TypedTemplate.Script

open Text

variable {cs rest : List Char} {joined : Bool} {c : Char}

theorem stripStart?_eq_some_iff {word : List Char} : stripStart? word cs = some rest ↔ cs = word ++ rest := by
  constructor
  · exact stripStart?_eq_some
  · rintro rfl
    rw [stripStart?, if_pos (List.isPrefixOf_iff_prefix.2 (List.prefix_append _ _)), List.drop_left]

theorem endsInClassHead_cons_iff :
    endsInClassHead joined (c :: cs) = true ↔
      (joined = false ∧ ∃ tail, c :: cs = "class".toList ++ tail ∧ isClassTail tail = true) ∨
        endsInClassHead (isNameChar c || c == '.') cs = true := by
  rw [endsInClassHead, Bool.or_eq_true, Bool.and_eq_true, Bool.not_eq_true']
  refine or_congr (and_congr_right fun _ => ?_) Iff.rfl
  cases hstrip : stripStart? "class".toList (c :: cs) with
  | none =>
    refine iff_of_false Bool.false_ne_true ?_
    rintro ⟨tail, hcs, -⟩
    rw [stripStart?_eq_some_iff.2 hcs] at hstrip
    cases hstrip
  | some tail =>
    constructor
    · exact fun htail => ⟨tail, stripStart?_eq_some_iff.1 hstrip, htail⟩
    · rintro ⟨tail', hcs, htail⟩
      rw [stripStart?_eq_some_iff.2 hcs] at hstrip
      cases hstrip
      exact htail

/-! ## Up to a slash -/

theorem dropWhile_append_cons {f : Char → Bool} {x : Char} (hx : f x = false) (front rest : List Char) :
    (front ++ x :: rest).dropWhile f = front.dropWhile f ++ x :: rest := by
  rw [List.dropWhile_append]
  split
  · rename_i hnone
    rw [List.dropWhile_cons_of_neg (by rw [hx]; exact Bool.false_ne_true), List.isEmpty_iff.1 hnone]
    rfl
  · rfl

theorem isNameChar_slash : isNameChar '/' = false := by decide +kernel

theorem startsBlank_slash (front rest : List Char) :
    startsBlank (front ++ '/' :: rest) = startsBlank (front ++ ['/']) := by
  cases front <;> rfl

/-- What a class extends has to start before a slash. -/
theorem isHeritage_slash (front rest : List Char) :
    isHeritage (front ++ '/' :: rest) = isHeritage (front ++ ['/']) := by
  by_cases hword : "extends".toList <+: front
  · obtain ⟨tail, rfl⟩ := hword
    have hstrip (rest : List Char) :
        stripStart? "extends".toList ("extends".toList ++ tail ++ '/' :: rest) = some (tail ++ '/' :: rest) :=
      stripStart?_eq_some_iff.2 (List.append_assoc _ _ _)
    rw [isHeritage, isHeritage, hstrip, hstrip]
    cases tail with
    | nil => rfl
    | cons c tail => simp [startsBlank]
  · have hstrip (rest : List Char) : stripStart? "extends".toList (front ++ '/' :: rest) = none := by
      refine Option.eq_none_iff_forall_ne_some.2 fun tail htail => hword ?_
      have hslash : '/' ∉ "extends".toList := by decide
      exact (Native.prefix_append_cons_iff hslash front rest).1 ⟨tail, (stripStart?_eq_some_iff.1 htail).symm⟩
    rw [isHeritage, isHeritage, hstrip, hstrip]

/-- A tail of a class head is told by the text up to a slash. -/
theorem isClassTail_slash (front rest : List Char) :
    isClassTail (front ++ '/' :: rest) = isClassTail (front ++ ['/']) := by
  have hblank : isBlank '/' = false := by decide
  have hnamed (cs : List Char) :
      isClassTail.startsNamed (cs ++ '/' :: rest) = isClassTail.startsNamed (cs ++ ['/']) := by
    cases cs <;> rfl
  have hempty (cs rest : List Char) : (cs ++ '/' :: rest).isEmpty = false := by
    cases cs <;> rfl
  simp only [isClassTail, trimStart, dropWhile_append_cons hblank, dropWhile_append_cons isNameChar_slash,
    hnamed, isHeritage_slash _ rest, startsBlank_slash _ rest, List.all_append, List.all_cons, hblank,
    Bool.false_and, Bool.and_false, hempty]

/-- Before a slash, a class head is told by the text up to there. -/
theorem exists_class_slash {front : List Char} :
    (∃ tail, front ++ '/' :: rest = "class".toList ++ tail ∧ isClassTail tail = true) ↔
      ∃ tail, front = "class".toList ++ tail ∧ isClassTail (tail ++ ['/']) = true := by
  constructor
  · rintro ⟨tail, hcs, htail⟩
    obtain ⟨tail', rfl⟩ := (Native.prefix_append_cons_iff (by decide) front rest).1 ⟨tail, hcs.symm⟩
    obtain rfl : tail' ++ '/' :: rest = tail := by simpa using hcs
    exact ⟨tail', rfl, by rwa [← isClassTail_slash tail' rest]⟩
  · rintro ⟨tail, rfl, htail⟩
    exact ⟨tail ++ '/' :: rest, List.append_assoc _ _ _, by rwa [isClassTail_slash]⟩

/-- Where no class head can start, one is looked for in the rest. -/
theorem endsInClassHead_of_not_class (h : ¬ "class".toList <+: c :: cs) :
    endsInClassHead joined (c :: cs) = endsInClassHead (isNameChar c || c == '.') cs := by
  rw [Bool.eq_iff_iff, endsInClassHead_cons_iff]
  refine or_iff_right ?_
  rintro ⟨-, tail, hcs, -⟩
  exact h ⟨tail, hcs.symm⟩

/-- A text without the word `class` is passed over, if it ends in a character that the word does not have. -/
theorem endsInClassHead_skip {x : Char} (hx : x ∉ "class".toList) (after : List Char) :
    ∀ {body : List Char} (joined : Bool), ¬ "class".toList <:+: body →
      endsInClassHead joined (body ++ x :: after) = endsInClassHead (isNameChar x || x == '.') after
  | [], joined, _ => by
    refine endsInClassHead_of_not_class fun hword => hx ?_
    obtain ⟨rest, hrest⟩ := hword
    rw [← (List.cons.inj hrest).1]
    decide
  | c :: body, joined, hbody => by
    have hword : ¬ "class".toList <+: c :: (body ++ x :: after) := fun hword =>
      hbody ((Native.prefix_append_cons_iff hx (c :: body) after).1 hword).isInfix
    rw [List.cons_append, endsInClassHead_of_not_class hword]
    exact endsInClassHead_skip hx after _ fun hstands => hbody (hstands.trans (List.suffix_cons c body).isInfix)

/-- After a slash a class head is looked for anew. -/
theorem endsInClassHead_slash {rest' : List Char} (h : endsInClassHead false rest = endsInClassHead false rest')
    (front : List Char) (joined : Bool) :
    endsInClassHead joined (front ++ '/' :: rest) = endsInClassHead joined (front ++ '/' :: rest') := by
  have hslash : (isNameChar '/' || '/' == '.') = false := by
    rw [isNameChar_slash]
    rfl
  induction front generalizing joined with
  | nil =>
    rw [List.nil_append, List.nil_append, endsInClassHead_of_not_class (by simp),
      endsInClassHead_of_not_class (by simp), hslash, h]
  | cons c front ih =>
    rw [Bool.eq_iff_iff, List.cons_append, List.cons_append, endsInClassHead_cons_iff, endsInClassHead_cons_iff,
      ← List.cons_append, ← List.cons_append, exists_class_slash, exists_class_slash, ih]

/-- What a comment holds does not matter to a class head, if it is not the word `class`. -/
theorem isClassHead_comment {x y : Char} (hx : x ∉ "class".toList) (hy : y ∉ "class".toList)
    {body body' : List Char} (hbody : ¬ "class".toList <:+: body) (hbody' : ¬ "class".toList <:+: body')
    (before after : List Char) :
    isClassHead (before ++ '/' :: x :: (body ++ y :: after)) =
      isClassHead (before ++ '/' :: x :: (body' ++ y :: after)) := by
  refine endsInClassHead_slash ?_ before false
  have hcons (body : List Char) : x :: (body ++ y :: after) = [] ++ x :: (body ++ y :: after) := rfl
  rw [hcons body, hcons body', endsInClassHead_skip hx _ _ (by simp), endsInClassHead_skip hx _ _ (by simp),
    endsInClassHead_skip hy _ _ hbody, endsInClassHead_skip hy _ _ hbody']

/-! ## Heads that are found -/

/-- White space between words. -/
def IsGap (cs : List Char) : Prop := cs ≠ [] ∧ cs.all isBlank = true

def IsName (cs : List Char) : Prop := cs ≠ [] ∧ cs.all isNameChar = true

/-- What can follow the word `class` up to the brace. The heritage is any text, so what a class implements can
stand in it. -/
inductive ClassTail : List Char → Prop
  | bare {blanks : List Char} (hblanks : blanks.all isBlank = true) : ClassTail blanks
  | named {gap name blanks : List Char} (hgap : IsGap gap) (hname : IsName name)
    (hblanks : blanks.all isBlank = true) : ClassTail (gap ++ (name ++ blanks))
  | extending {gap gap' heritage : List Char} (hgap : IsGap gap) (hgap' : IsGap gap') (hheritage : heritage ≠ []) :
    ClassTail (gap ++ ("extends".toList ++ (gap' ++ heritage)))
  | namedExtending {gap name gap' gap'' heritage : List Char} (hgap : IsGap gap) (hname : IsName name)
    (hgap' : IsGap gap') (hgap'' : IsGap gap'') (hheritage : heritage ≠ []) :
    ClassTail (gap ++ (name ++ (gap' ++ ("extends".toList ++ (gap'' ++ heritage)))))

/-- White space ends names. -/
theorem isNameChar_of_isBlank (h : isBlank c = true) : isNameChar c = false := by
  by_cases hlow : c.toNat < 0x80
  · have hascii : ∀ n < 0x80, inRanges blankRanges n = true → isNameChar (Char.ofNat n) = false := by
      decide +kernel
    rw [← Char.ofNat_toNat c]
    exact hascii c.toNat hlow h
  · have hapart : ∀ b ∈ blankRanges, ∀ n ∈ List.range' b.1 (b.2 + 1 - b.1), inRuns wordRuns n = false := by
      decide +kernel
    obtain ⟨b, hb, hblank⟩ := List.any_eq_true.1 h
    rw [Bool.and_eq_true, decide_eq_true_iff, decide_eq_true_iff] at hblank
    have hword := hapart b hb c.toNat (List.mem_range'_1.2 (by omega))
    have hdollar : c ≠ '$' := by
      rintro rfl
      exact hlow (by decide)
    rw [isNameChar, isWord, if_neg hlow, hword, Bool.false_or, beq_eq_false_iff_ne]
    exact hdollar

section Tail

variable {gap name : List Char}

theorem IsGap.startsBlank_append (h : IsGap gap) (rest : List Char) : startsBlank (gap ++ rest) = true := by
  obtain ⟨c, gap, rfl⟩ := List.exists_cons_of_ne_nil h.1
  exact (Bool.and_eq_true_iff.1 h.2).1

theorem IsGap.trimStart_append (h : IsGap gap) (hrest : startsBlank rest = false) :
    trimStart (gap ++ rest) = rest := by
  rw [trimStart, List.dropWhile_append_of_pos (List.all_eq_true.1 h.2)]
  cases rest with
  | nil => rfl
  | cons c rest => exact List.dropWhile_cons_of_neg (Bool.eq_false_iff.1 hrest)

theorem IsName.startsNamed_append (h : IsName name) (rest : List Char) :
    isClassTail.startsNamed (name ++ rest) = true := by
  obtain ⟨c, name, rfl⟩ := List.exists_cons_of_ne_nil h.1
  exact (Bool.and_eq_true_iff.1 h.2).1

theorem IsName.startsBlank_append (h : IsName name) (rest : List Char) : startsBlank (name ++ rest) = false := by
  obtain ⟨c, name, rfl⟩ := List.exists_cons_of_ne_nil h.1
  refine Bool.eq_false_of_not_eq_true fun hblank => ?_
  have hname := (Bool.and_eq_true_iff.1 h.2).1
  rw [isNameChar_of_isBlank hblank] at hname
  cases hname

theorem IsName.dropWhile_append (h : IsName name) (hrest : rest.all isBlank = true ∨ startsBlank rest = true) :
    (name ++ rest).dropWhile isNameChar = rest := by
  rw [List.dropWhile_append_of_pos (List.all_eq_true.1 h.2)]
  cases rest with
  | nil => rfl
  | cons c rest =>
    have hblank : isBlank c = true := by
      rcases hrest with hall | hstarts
      · exact (Bool.and_eq_true_iff.1 hall).1
      · exact hstarts
    exact List.dropWhile_cons_of_neg (Bool.eq_false_iff.1 (isNameChar_of_isBlank hblank))

theorem isHeritage_extends {gap heritage : List Char} (hgap : IsGap gap) (hheritage : heritage ≠ []) :
    isHeritage ("extends".toList ++ (gap ++ heritage)) = true := by
  have hlength : 1 < (gap ++ heritage).length := by
    have := List.length_pos_iff.2 hgap.1
    have := List.length_pos_iff.2 hheritage
    rw [List.length_append]
    omega
  rw [isHeritage, stripStart?_eq_some_iff.2 rfl]
  simp only [hgap.startsBlank_append, hlength, decide_true, Bool.and_self]

end Tail

theorem ClassTail.isClassTail {tail : List Char} (h : ClassTail tail) : isClassTail tail = true := by
  have hextends (rest : List Char) : startsBlank ("extends".toList ++ rest) = false := rfl
  cases h with
  | bare hblanks =>
    have hrest : trimStart tail = [] := by
      rw [trimStart, ← List.append_nil tail, List.dropWhile_append_of_pos (List.all_eq_true.1 hblanks)]
      rfl
    simp [Script.isClassTail, hrest]
  | named hgap hname hblanks =>
    simp only [Script.isClassTail, hgap.trimStart_append (hname.startsBlank_append _),
      hname.dropWhile_append (.inl hblanks), hgap.startsBlank_append, hname.startsNamed_append, hblanks,
      Bool.true_or, Bool.and_self, Bool.or_true]
  | extending hgap hgap' hheritage =>
    simp only [Script.isClassTail, hgap.trimStart_append (hextends _), hgap.startsBlank_append,
      isHeritage_extends hgap' hheritage, Bool.true_or, Bool.and_self, Bool.or_true]
  | namedExtending hgap hname hgap' hgap'' hheritage =>
    simp only [Script.isClassTail, hgap.trimStart_append (hname.startsBlank_append _),
      hname.dropWhile_append (.inr (hgap'.startsBlank_append _)), hgap.startsBlank_append,
      hname.startsNamed_append, hgap'.startsBlank_append, hgap'.trimStart_append (hextends _),
      isHeritage_extends hgap'' hheritage, Bool.and_self, Bool.or_true]

/-- A class head is found where the word `class` neither ends a longer name nor names a property. -/
theorem endsInClassHead_class {before tail : List Char} (hjoined : before = [] → joined = false)
    (hbefore : ∀ c ∈ before.getLast?, (isNameChar c || c == '.') = false) (htail : isClassTail tail = true) :
    endsInClassHead joined (before ++ ("class".toList ++ tail)) = true := by
  induction before generalizing joined with
  | nil => exact endsInClassHead_cons_iff.2 (.inl ⟨hjoined rfl, tail, rfl, htail⟩)
  | cons c before ih =>
    refine endsInClassHead_cons_iff.2 (.inr (ih (fun hnil => ?_) fun d hd => hbefore d ?_))
    · exact hbefore c (by rw [hnil]; rfl)
    · rw [List.getLast?_cons, Option.mem_def.1 hd]
      rfl

namespace Native

/-! ## The statement before a brace -/

/-- Whether a brace after a text is that of a class. -/
def opensClass (text : List Char) : Bool := isClassHead (statement text.reverse)

theorem opensClass_append {text : List Char} (h : text.all inStatement = true) (front : List Char) :
    opensClass (front ++ text) = isClassHead (statement front.reverse ++ text) := by
  have hreverse : ∀ c ∈ text.reverse, inStatement c = true := fun c hc =>
    List.all_eq_true.1 h c (List.mem_reverse.1 hc)
  rw [opensClass, statement, List.reverse_append, List.takeWhile_append_of_pos hreverse, List.reverse_append,
    List.reverse_reverse, statement]

/-- What precedes the last brace or semicolon does not matter. -/
theorem opensClass_append_of_not_all {text : List Char} (h : text.all inStatement = false) (front : List Char) :
    opensClass (front ++ text) = opensClass text := by
  rw [opensClass, statement, List.reverse_append, List.takeWhile_append, if_neg, opensClass, statement]
  intro hlength
  have heq : text.reverse.takeWhile inStatement = text.reverse :=
    (List.takeWhile_sublist _).eq_of_length hlength
  rw [← List.all_reverse, ← heq, List.all_takeWhile] at h
  cases h

theorem opensClass_class {front tail : List Char} (htail : isClassTail tail = true)
    (hall : tail.all inStatement = true)
    (hfront : ∀ c ∈ front.getLast?, (isNameChar c || c == '.') = false) :
    opensClass (front ++ ("class".toList ++ tail)) = true := by
  have hhead : ("class".toList ++ tail).all inStatement = true := by
    rw [List.all_append, hall]
    rfl
  rw [opensClass_append hhead]
  refine endsInClassHead_class (fun _ => rfl) (fun c hc => hfront c ?_) htail
  rw [statement, List.getLast?_reverse, List.head?_takeWhile] at hc
  rw [← List.head?_reverse]
  exact Option.mem_def.2 (Option.eq_some_of_filter_eq_some hc)

end Native

end TypedTemplate.Script
