/-
Templates in the body of a class. What a head may hold leaves the frames as they are, so the brace after it opens
the body of a class inside whatever is open before; and a balanced stretch of members, with all that the scan takes
for strings, comments, literals, groups and elements, comes back to the frames it started from. A template that
stands there is a member of the class.
-/
import TypedTemplate.Proofs.Script.ClassHead

namespace TypedTemplate.Script.Native

open Text

variable {rest text front : List Char} {p : Progress}

/-! ## Elements -/

/-- An element stands before `rest`: its opening tag without the last character, and its content. -/
structure IsElement (tag inside rest : List Char) : Prop where
  opens : atOpenTag (tag ++ ['>']) = true
  tagEnds : '>' ∉ tag
  ends : Ends 0 (inside ++ (closeTag ++ rest)) inside.length

/-- The template that an element is. -/
def Progress.element (p : Progress) (tag inside : List Char) : NativeTemplate :=
  ⟨⟨p.pos, p.pos + byteLength (tag ++ '>' :: (inside ++ closeTag))⟩,
    ⟨p.pos + byteLength (tag ++ ['>']), p.pos + byteLength (tag ++ '>' :: inside)⟩, p.placement⟩

/-- The scan takes an element in one step. -/
theorem IsElement.reads {tag inside : List Char} (h : IsElement tag inside rest) (hcode : p.InCode) :
    Reads rest p (tag ++ '>' :: (inside ++ closeTag)) [p.element tag inside]
      (p.pass (tag ++ '>' :: (inside ++ closeTag)) true) := by
  obtain ⟨x, hx, hstarts⟩ := atOpenTag_iff.1 h.opens
  cases tag with
  | nil => exact absurd h.opens (by decide)
  | cons c tag =>
    have hcs : c :: (tag ++ '>' :: (inside ++ closeTag) ++ rest) =
        c :: tag ++ '>' :: (inside ++ (closeTag ++ rest)) := by simp
    have hopen : atOpenTag (c :: (tag ++ '>' :: (inside ++ closeTag) ++ rest)) = true := by
      refine atOpenTag_iff.2 ⟨x, hx, hstarts.trans ⟨inside ++ (closeTag ++ rest), ?_⟩⟩
      rw [hcs, List.append_assoc]
      rfl
    have hextent := extent_eq_some_iff.2 ⟨c :: tag, _, hcs, h.tagEnds, rfl, h.ends⟩
    have hstep : step p c (tag ++ '>' :: (inside ++ closeTag) ++ rest) = _ :=
      (if_neg hcode).trans ((codeStep_of_atOpenTag hopen).2 _ _ hextent)
    have hread := Reads.single hstep ?_
    · simp only [Step.take, take_of_element hcs, p.template_eq hcs] at hread
      exact hread
    · simp [Step.take]
      omega

/-! ## Balanced stretches -/

/-- A stretch of a text before `rest` in which all that is opened is closed, as the scan reads it: what it passes
over, elements, and what stands between the start and the end of a frame. -/
inductive Balanced : List Char → Progress → List Char → List NativeTemplate → Progress → Prop
  | nil (rest : List Char) (p : Progress) : Balanced rest p [] [] p
  | append {rest front back : List Char} {ts us : List NativeTemplate} {p q r : Progress}
    (hfront : Balanced (back ++ rest) p front ts q) (hback : Balanced rest q back us r) :
    Balanced rest p (front ++ back) (ts ++ us) r
  | run {rest token : List Char} {c : Char} {counts : Bool} {p : Progress}
    (hlexeme : p.lexeme c (token ++ rest) = .run token.length counts) :
    Balanced rest p (c :: token) [] (p.pass (c :: token) counts)
  | element {rest tag inside : List Char} {p : Progress} (hcode : p.InCode) (h : IsElement tag inside rest) :
    Balanced rest p (tag ++ '>' :: (inside ++ closeTag)) [p.element tag inside]
      (p.pass (tag ++ '>' :: (inside ++ closeTag)) true)
  | group {rest token inside : List Char} {c d : Char} {f : Frame} {kinds : List Frame} {ts : List NativeTemplate}
    {p q : Progress} (hentered : (p.lexeme c (token ++ (inside ++ d :: rest))).entered p = some f)
    (hwidth : (p.lexeme c (token ++ (inside ++ d :: rest))).width = token.length)
    (hinside : Balanced (d :: rest) ((p.push f).pass (c :: token) true) inside ts q)
    (hcloses : q.lexeme d rest = .closing kinds) (hkind : f ∈ kinds) :
    Balanced rest p (c :: (token ++ (inside ++ [d]))) ts ((q.popIf kinds).pass [d] true)

namespace Balanced

variable {ts : List NativeTemplate} {q : Progress}

theorem reads (h : Balanced rest p text ts q) : Reads rest p text ts q := by
  induction h with
  | nil rest p => exact .nil p
  | append hfront hback ihfront ihback => exact ihfront.append ihback
  | run hlexeme => exact .run hlexeme
  | element hcode h => exact h.reads hcode
  | @group rest token inside c d f kinds ts p q hentered hwidth hinside hcloses hkind ih =>
    have hopen : Reads (inside ++ [d] ++ rest) p (c :: token) [] ((p.push f).pass (c :: token) true) := by
      rw [List.append_assoc]
      exact .enter hentered hwidth
    have hall := hopen.append (ih.append (.leave hcloses))
    rwa [List.nil_append, List.append_nil] at hall

/-- A balanced stretch ends where it started, as far as what is open is concerned. -/
theorem frames_eq (h : Balanced rest p text ts q) : q.frames = p.frames := by
  induction h with
  | nil rest p => rfl
  | append hfront hback ihfront ihback => exact ihback.trans ihfront
  | run hlexeme => rfl
  | element hcode h => rfl
  | group hentered hwidth hinside hcloses hkind ih =>
    rw [Progress.popIf_eq_with, ih]
    simp [Progress.pass, Progress.push, hkind]

theorem inCode_iff (h : Balanced rest p text ts q) : q.InCode ↔ p.InCode := by
  rw [Progress.InCode, Progress.InCode, h.frames_eq]

end Balanced

/-! ## The text of a head -/

/-- A text without strings, comments, literals, braces and semicolons, in which parentheses and brackets match. -/
inductive Matched : List Char → Prop
  | nil : Matched []
  | char {c : Char} (hc : c ∉ ';' :: signs) : Matched [c]
  | append {front back : List Char} (hfront : Matched front) (hback : Matched back) : Matched (front ++ back)
  | group {c d : Char} {inside : List Char} (hpair : (c = '(' ∧ d = ')') ∨ (c = '[' ∧ d = ']'))
    (hinside : Matched inside) : Matched (c :: (inside ++ [d]))

theorem Matched.of_all (h : text.all (fun c => !(';' :: signs).contains c) = true) : Matched text := by
  induction text with
  | nil => exact .nil
  | cons c text ih =>
    rw [List.all_cons, Bool.and_eq_true, Bool.not_eq_true', ← Bool.not_eq_true, List.contains_iff_mem] at h
    exact .append (.char h.1) (ih h.2)

theorem Matched.all_inStatement (h : Matched text) : text.all inStatement = true := by
  induction h with
  | nil => rfl
  | char hc =>
    simp only [signs, List.mem_cons, List.not_mem_nil, or_false, not_or] at hc
    simp [inStatement, hc]
  | append hfront hback ihfront ihback => rw [List.all_append, ihfront, ihback, Bool.and_self]
  | group hpair hinside ih =>
    rw [List.all_cons, List.all_append, ih]
    rcases hpair with ⟨rfl, rfl⟩ | ⟨rfl, rfl⟩ <;> rfl

/-- No opening tag starts in a text before `rest`. -/
def Tagless (text rest : List Char) : Prop := ∀ n < text.length, atOpenTag ((text ++ rest).drop n) = false

theorem Tagless.left {back : List Char} (h : Tagless (front ++ back) rest) : Tagless front (back ++ rest) := by
  intro n hn
  rw [← List.append_assoc]
  exact h n (by rw [List.length_append]; omega)

theorem Tagless.right {back : List Char} (h : Tagless (front ++ back) rest) : Tagless back rest := by
  intro n hn
  have hclear := h (front.length + n) (by rw [List.length_append]; omega)
  rwa [List.append_assoc, ← List.drop_drop, List.drop_left] at hclear

theorem tagless_of_not_mem (h : '<' ∉ text) (rest : List Char) : Tagless text rest := by
  intro n hn
  rw [List.drop_append_of_le_length hn.le, List.drop_eq_getElem_cons hn]
  exact atOpenTag_of_ne (fun heq => h (heq ▸ List.getElem_mem hn)) _

theorem tagless_of_not_occurs (h : ¬ openTag <:+: text) {x : Char} (hx : x ∉ openTag) (rest : List Char) :
    Tagless text (x :: rest) := by
  intro n hn
  refine Bool.eq_false_of_not_eq_true fun hopen => h ?_
  have hword := openTag_of_atOpenTag hopen
  rw [List.drop_append_of_le_length hn.le, prefix_append_cons_iff hx] at hword
  exact hword.isInfix.trans (List.drop_suffix n text).isInfix

/-- A matched text is balanced. -/
theorem Matched.balanced (h : Matched text) (htags : Tagless text rest) (hcode : p.InCode) :
    ∃ q, Balanced rest p text [] q := by
  induction h generalizing rest p with
  | nil => exact ⟨p, .nil rest p⟩
  | @char c hc =>
    have hopen : atOpenTag (c :: rest) = false := htags 0 Nat.one_pos
    refine ⟨_, .run ((Progress.lexeme_of_inCode hcode _ _).trans (codeLexeme_of_not_sign ?_ hopen _))⟩
    exact fun hmem => hc (List.mem_cons_of_mem _ hmem)
  | append hfront hback ihfront ihback =>
    obtain ⟨q, hq⟩ := ihfront htags.left hcode
    obtain ⟨r, hr⟩ := ihback htags.right (hq.inCode_iff.2 hcode)
    exact ⟨r, hq.append hr⟩
  | @group c d inside hpair hinside ih =>
    have hopen : (p.lexeme c ([] ++ (inside ++ d :: rest))) = .opening .paren 0 := by
      rw [Progress.lexeme_of_inCode hcode]
      rcases hpair with ⟨rfl, rfl⟩ | ⟨rfl, rfl⟩ <;> simp [codeLexeme, atOpenTag_of_ne]
    have hinner : ((p.push .paren).pass [c] true).InCode := fun hliteral => by cases hliteral
    have htags' : Tagless ([c] ++ (inside ++ [d])) rest := htags
    obtain ⟨q, hq⟩ := ih htags'.right.left hinner
    have hclose : q.lexeme d rest = .closing [.paren] := by
      rw [Progress.lexeme_of_inCode (hq.inCode_iff.2 hinner)]
      rcases hpair with ⟨rfl, rfl⟩ | ⟨rfl, rfl⟩ <;> simp [codeLexeme, atOpenTag_of_ne]
    have hgroup : Balanced rest p (c :: ([] ++ (inside ++ [d]))) [] _ :=
      .group (by rw [hopen]; rfl) (by rw [hopen]; rfl) hq hclose (List.mem_singleton_self _)
    exact ⟨_, hgroup⟩

/-! ## Members of a class -/

/-- The brace after a class head opens the body of a class, whatever is open before. -/
theorem reads_classHead {tail : List Char} {ts : List NativeTemplate}
    (hfront : Reads ("class".toList ++ (tail ++ '{' :: rest)) {} front ts p) (hcode : p.InCode)
    (hbefore : ∀ c ∈ front.getLast?, (isNameChar c || c == '.') = false) (htail : ClassTail tail)
    (hmatched : Matched tail) (htags : ¬ openTag <:+: tail) :
    Reads rest p ("class".toList ++ (tail ++ ['{'])) []
      ((p.push .classBody).pass ("class".toList ++ (tail ++ ['{'])) true) := by
  have hword : Matched "class".toList := .of_all (by decide)
  have hbrace : '{' ∉ openTag := by decide
  obtain ⟨q, hq⟩ := hword.balanced (tagless_of_not_mem (by decide) _) hcode
  obtain ⟨r, hr⟩ := hmatched.balanced (tagless_of_not_occurs htags hbrace rest) (hq.inCode_iff.2 hcode)
  have hhead := hq.append hr
  have hframe : r.braceFrame = .classBody := by
    have hopens := opensClass_class htail.isClassTail hmatched.all_inStatement hbefore
    rw [r.braceFrame_eq, hhead.reads.seen_eq, hfront.seen_eq, List.append_nil, ← List.reverse_append]
    exact if_pos hopens
  have hlexeme : r.lexeme '{' ([] ++ rest) = .brace := by
    rw [Progress.lexeme_of_inCode (hhead.inCode_iff.2 hcode)]
    simp [codeLexeme, atOpenTag_of_ne]
  have henter : Reads rest r ['{'] [] ((r.push .classBody).pass ['{'] true) :=
    .enter (by rw [hlexeme, ← hframe]; rfl) (by rw [hlexeme]; rfl)
  have hprogress : (r.push .classBody).pass ['{'] true =
      (p.push .classBody).pass ("class".toList ++ (tail ++ ['{'])) true := by
    simp only [Progress.pass, Progress.push, hhead.reads.seen_eq, hhead.reads.pos_eq, hhead.frames_eq]
    simp [Nat.add_assoc]
  have hall := hhead.reads.append henter
  rwa [hprogress, List.append_nil, List.append_assoc] at hall

/-- A template that stands directly in the body of a class, after any balanced members, is a member of the class,
at any place in code. The head has a name and what the class extends, each optional; its text holds no brace and no
opening tag, and what the class implements stands after what it extends. -/
theorem template_in_class_body_is_member {front tail members tag inside rest : List Char}
    {ts us : List NativeTemplate} {p q : Progress}
    (hfront : Reads ("class".toList ++ (tail ++ '{' :: (members ++ (tag ++ '>' :: (inside ++ closeTag) ++ rest))))
      {} front ts p)
    (hcode : p.InCode) (hbefore : ∀ c ∈ front.getLast?, (isNameChar c || c == '.') = false)
    (htail : ClassTail tail) (hmatched : Matched tail) (htags : ¬ openTag <:+: tail)
    (hmembers : Balanced (tag ++ '>' :: (inside ++ closeTag) ++ rest)
      ((p.push .classBody).pass ("class".toList ++ (tail ++ ['{'])) true) members us q)
    (helement : IsElement tag inside rest) :
    q.pos = byteLength (front ++ ("class".toList ++ (tail ++ '{' :: members))) ∧
      scan (String.ofList (front ++ ("class".toList ++
          (tail ++ '{' :: (members ++ (tag ++ '>' :: (inside ++ closeTag) ++ rest)))))) =
        (scanFrom (q.pass (tag ++ '>' :: (inside ++ closeTag)) true) rest).map fun vs => ts ++ (us ++
          (⟨⟨q.pos, q.pos + byteLength (tag ++ '>' :: (inside ++ closeTag))⟩,
            ⟨q.pos + byteLength (tag ++ ['>']), q.pos + byteLength (tag ++ '>' :: inside)⟩, .classMember⟩ :: vs)) := by
  have hhead := reads_classHead hfront hcode hbefore htail hmatched htags
  have hfront' : Reads ("class".toList ++ (tail ++ ['{']) ++
      (members ++ (tag ++ '>' :: (inside ++ closeTag) ++ rest))) {} front ts p := by
    simpa only [List.append_assoc, List.singleton_append] using hfront
  have hbody := (hfront'.append hhead).append hmembers.reads
  have hinner : q.InCode := by
    rw [Progress.InCode, hmembers.frames_eq]
    exact fun hliteral => by cases hliteral
  have hplacement : q.placement = .classMember := by
    rw [Progress.placement, hmembers.frames_eq]
    rfl
  constructor
  · rw [hbody.pos_eq]
    simp
  · have hscan := (hbody.append (helement.reads hinner)).scanFrom_eq
    rw [Progress.element, hplacement] at hscan
    simp only [List.append_assoc, List.append_nil, List.cons_append, List.nil_append] at hscan ⊢
    rw [scan, String.toList_ofList]
    exact hscan

theorem template_in_class_body_is_member_nested :
    scan "f(class A extends B(C)\x7bm()\x7b'\x7d'\x7d<template>x</template>\x7d)" =
      .ok [⟨⟨31, 53⟩, ⟨41, 42⟩, .classMember⟩] := by
  have hfront : Reads "class A extends B(C)\x7bm()\x7b'\x7d'\x7d<template>x</template>\x7d)".toList {} "f(".toList []
      ⟨2, ['(', 'f'], ['(', 'f'], [.paren]⟩ := .cons rfl (.enter rfl rfl)
  have htail : ClassTail ([' '] ++ (['A'] ++ ([' '] ++ ("extends".toList ++ ([' '] ++ "B(C)".toList))))) :=
    .namedExtending ⟨by decide, by decide⟩ ⟨by decide, by decide⟩ ⟨by decide, by decide⟩ ⟨by decide, by decide⟩
      (by decide)
  have hmatched : Matched (" A extends B".toList ++ "(C)".toList) :=
    .append (.of_all (by decide)) (.group (.inl ⟨rfl, rfl⟩) (.char (by decide)))
  have hmembers : Balanced "<template>x</template>\x7d)".toList
      ⟨23, "\x7b)C(B sdnetxe A ssalc(f".toList, "\x7b)C(B sdnetxe A ssalc(f".toList, [.classBody, .paren]⟩
      (['m'] ++ ('(' :: ([] ++ ([] ++ [')'])) ++ '{' :: ([] ++ (['\'', '}', '\''] ++ ['}'])))) [] _ :=
    .append (.run rfl) (.append (.group (f := .paren) rfl rfl (.nil _ _) rfl (List.mem_singleton_self _))
      (.group (f := .block) rfl rfl (.run rfl) rfl (List.mem_cons_of_mem _ (List.mem_cons_self ..))))
  have helement : IsElement "<template".toList ['x'] "\x7d)".toList :=
    ⟨by decide, by decide, ⟨by decide, by decide, by decide⟩⟩
  obtain ⟨-, hscan⟩ := @template_in_class_body_is_member "f(".toList " A extends B(C)".toList
    "m()\x7b'\x7d'\x7d".toList "<template".toList ['x'] "\x7d)".toList [] [] _ _ hfront (by decide)
    (by rintro _ ⟨⟩; rfl) htail hmatched (by decide) hmembers helement
  exact hscan.trans (by decide +kernel)

/-- Type parameters, an `implements` clause without an `extends` clause and a brace in a type hide a class head, and
a type of that name is taken for an element. -/
theorem generic_class_body_missed :
    scan "class Foo<T> extends Component \x7b\n  <template>x</template>\n\x7d" =
        .ok [⟨⟨35, 57⟩, ⟨45, 46⟩, .expression⟩] ∧
      scan "class Foo implements Bar \x7b<template>x</template>\x7d" = .ok [⟨⟨26, 48⟩, ⟨36, 37⟩, .expression⟩] ∧
      scan "class Foo extends Bar<\x7ba: 1\x7d> \x7b<template>x</template>\x7d" =
        .ok [⟨⟨31, 53⟩, ⟨41, 42⟩, .expression⟩] ∧
      scan "class Foo extends Bar<template> \x7b<template>x</template>\x7d" = .error ⟨⟨21, 30⟩⟩ := by
  decide +kernel

end TypedTemplate.Script.Native
