/-
Settings without their comments. A text is read as parts, one after another: strings, comments, and characters that
belong to neither. Removing the comments keeps the other parts as they are and in their order. No two of them meet
as the start of a comment, because a slash outside of strings is never followed by a part that is dropped; so there
is nothing to remove from what is left.
-/
import TypedTemplate.Project
import Mathlib.Data.List.Flatten

namespace TypedTemplate.Comment

/-! ## Parts -/

/-- What a string or a comment holds after its opening, with its end, before the text `rest`. In a string, a backslash
takes the next character along, whatever it is; a line comment ends before the end of the line, and a block comment
where it first can. What has no end runs to the end of the text. -/
inductive Inside (rest : List Char) : Mode → List Char → Prop
  | unclosed (m : Mode) (hrest : rest = []) : Inside rest m []
  | backslash (hrest : rest = []) : Inside rest .string ['\\']
  | quote : Inside rest .string ['"']
  | escape (c : Char) {cs : List Char} (h : Inside rest .string cs) : Inside rest .string ('\\' :: c :: cs)
  | char {c : Char} {cs : List Char} (hquote : c ≠ '"') (hbackslash : c ≠ '\\') (h : Inside rest .string cs) :
    Inside rest .string (c :: cs)
  | lineEnd (hrest : rest.head? = some '\n') : Inside rest .line []
  | onLine {c : Char} {cs : List Char} (hc : c ≠ '\n') (h : Inside rest .line cs) : Inside rest .line (c :: cs)
  | close : Inside rest .block ['*', '/']
  | inBlock {c : Char} {cs : List Char} (hc : c = '*' → cs.head? ≠ some '/') (h : Inside rest .block cs) :
    Inside rest .block (c :: cs)

/-- A part of a text: a character, or a string or comment by what follows its opening. -/
inductive Part where
  | plain (c : Char)
  | string (body : List Char)
  | line (body : List Char)
  | block (body : List Char)

namespace Part

def text : Part → List Char
  | plain c => [c]
  | string body => '"' :: body
  | line body => '/' :: '/' :: body
  | block body => '/' :: '*' :: body

def isComment : Part → Bool
  | plain _ => false
  | string _ => false
  | line _ => true
  | block _ => true

/-- What a part is like before the text `rest`. A slash on its own starts no comment. -/
def Before (rest : List Char) : Part → Prop
  | plain c => c ≠ '"' ∧ (c = '/' → ∀ d ∈ rest.head?, d ≠ '/' ∧ d ≠ '*')
  | string body => Inside rest .string body
  | line body => Inside rest .line body
  | block body => Inside rest .block body

end Part

/-- A text read as parts. -/
inductive Reads : List Char → List Part → Prop
  | nil : Reads [] []
  | cons {p : Part} {rest : List Char} {ps : List Part} (hp : p.Before rest) (h : Reads rest ps) :
    Reads (p.text ++ rest) (p :: ps)

/-- A text is its parts, one after another. -/
theorem Reads.eq {cs : List Char} {ps : List Part} (h : Reads cs ps) : cs = ps.flatMap Part.text := by
  induction h with
  | nil => rfl
  | cons _ _ ih => rw [List.flatMap_cons, ← ih]

/-- The parts that are no comments. -/
def kept (ps : List Part) : List Part := ps.filter fun p => !p.isComment

theorem kept_cons (p : Part) (ps : List Part) :
    kept (p :: ps) = if p.isComment then kept ps else p :: kept ps := by
  cases h : p.isComment <;> simp [kept, h]

/-! ## Removing the comments -/

/-- A string is kept up to its end, and a comment dropped. -/
theorem strip_inside {rest : List Char} {m : Mode} {body : List Char} (h : Inside rest m body) :
    strip m (body ++ rest) = (if m = .string then body else []) ++ strip .plain rest := by
  induction h with
  | unclosed m hrest => cases m <;> simp [hrest, strip]
  | backslash hrest => simp [hrest, strip]
  | quote => simp [strip]
  | escape c _ ih => simp_all [strip]
  | char hquote hbackslash _ ih => simp_all [strip]
  | lineEnd hrest =>
    obtain ⟨tail, rfl⟩ := List.head?_eq_some_iff.1 hrest
    simp [strip]
  | onLine hc _ ih => simp_all [strip]
  | close => simp [strip]
  | @inBlock c cs hc h ih =>
    have hopen : ∀ tail, c = '*' → cs ++ rest = '/' :: tail → False := by
      intro tail hstar htail
      cases cs with
      | nil =>
        cases h with
        | unclosed _ hrest => simp [hrest] at htail
      | cons d cs => exact hc hstar (by rw [(List.cons.inj htail).1]; rfl)
    rw [List.cons_append, strip]
    · exact ih
    · exact hopen

/-- A comment is dropped, and any other part is kept. -/
theorem strip_part {p : Part} {rest : List Char} (h : p.Before rest) :
    strip .plain (p.text ++ rest) = (if p.isComment then [] else p.text) ++ strip .plain rest := by
  cases p with
  | plain c =>
    have hslash (d : Char) (hd : d = '/' ∨ d = '*') : ∀ tail, c = '/' → rest = d :: tail → False := by
      rintro tail rfl rfl
      obtain ⟨hline, hblock⟩ := h.2 rfl d rfl
      exact hd.elim hline hblock
    show strip .plain (c :: rest) = c :: strip .plain rest
    rw [strip, if_neg h.1]
    · exact hslash '/' (.inl rfl)
    · exact hslash '*' (.inr rfl)
  | string body =>
    have hopen : strip .plain ('"' :: (body ++ rest)) = '"' :: strip .string (body ++ rest) := by simp [strip]
    exact hopen.trans (congrArg _ (strip_inside h))
  | line body => exact strip_inside (m := .line) h
  | block body => exact strip_inside (m := .block) h

theorem strip_of_reads {cs : List Char} {ps : List Part} (h : Reads cs ps) :
    strip .plain cs = (kept ps).flatMap Part.text := by
  induction h with
  | nil => rfl
  | @cons p rest ps hp _ ih =>
    rw [strip_part hp, ih, kept_cons]
    cases p.isComment <;> rfl

/-! ## Every text has parts -/

/-- A text in the middle of a part: the part ends somewhere, and the parts after it follow. -/
def Continues : Mode → List Char → Prop
  | .plain, cs => ∃ ps, Reads cs ps
  | m, cs => ∃ body rest ps, cs = body ++ rest ∧ Inside rest m body ∧ Reads rest ps

theorem continues (m : Mode) (cs : List Char) : Continues m cs := by
  induction m, cs using strip.induct with
  | case1 m =>
    cases m with
    | plain => exact ⟨[], .nil⟩
    | string | line | block => exact ⟨[], [], [], rfl, .unclosed _ rfl, .nil⟩
  | case2 rest ih =>
    obtain ⟨body, rest, ps, rfl, hin, hps⟩ := ih
    exact ⟨_, .cons (p := .line body) hin hps⟩
  | case3 rest ih =>
    obtain ⟨body, rest, ps, rfl, hin, hps⟩ := ih
    exact ⟨_, .cons (p := .block body) hin hps⟩
  | case4 c rest hline hblock ih =>
    split at ih
    · rename_i hquote
      obtain ⟨body, rest, ps, rfl, hin, hps⟩ := ih
      rw [hquote]
      exact ⟨_, .cons (p := .string body) hin hps⟩
    · rename_i hquote
      obtain ⟨ps, hps⟩ := ih
      refine ⟨_, .cons (p := .plain c) ⟨hquote, fun hslash d hd => ?_⟩ hps⟩
      obtain ⟨tail, rfl⟩ := List.head?_eq_some_iff.1 hd
      exact ⟨fun heq => hline tail hslash (by rw [heq]), fun heq => hblock tail hslash (by rw [heq])⟩
  | case5 c rest ih =>
    obtain ⟨body, rest, ps, rfl, hin, hps⟩ := ih
    exact ⟨_, rest, ps, rfl, .escape c hin, hps⟩
  | case6 c rest hend ih =>
    split at ih
    · rename_i hquote
      obtain ⟨ps, hps⟩ := ih
      rw [hquote]
      exact ⟨['"'], rest, ps, rfl, .quote, hps⟩
    · rename_i hquote
      by_cases hbackslash : c = '\\'
      · -- the text ends after a backslash
        cases rest with
        | nil => exact ⟨[c], [], [], rfl, hbackslash ▸ .backslash rfl, .nil⟩
        | cons d rest => exact (hend d rest hbackslash rfl).elim
      · obtain ⟨body, rest, ps, rfl, hin, hps⟩ := ih
        exact ⟨_, rest, ps, rfl, .char hquote hbackslash hin, hps⟩
  | case7 rest ih =>
    obtain ⟨ps, hps⟩ := ih
    refine ⟨[], '\n' :: rest, _, rfl, .lineEnd rfl, .cons (p := .plain '\n') ?_ hps⟩
    exact ⟨by decide, fun h => absurd h (by decide)⟩
  | case8 c rest hc ih =>
    obtain ⟨body, rest, ps, rfl, hin, hps⟩ := ih
    exact ⟨_, rest, ps, rfl, .onLine hc hin, hps⟩
  | case9 rest ih =>
    obtain ⟨ps, hps⟩ := ih
    exact ⟨['*', '/'], rest, ps, rfl, .close, hps⟩
  | case10 c rest hend ih =>
    obtain ⟨body, rest, ps, rfl, hin, hps⟩ := ih
    refine ⟨_, rest, ps, rfl, .inBlock (fun hstar hslash => ?_) hin, hps⟩
    obtain ⟨tail, rfl⟩ := List.head?_eq_some_iff.1 hslash
    exact hend _ hstar rfl

/-! ## What is left -/

/-- Where a text starts with no slash, neither does a comment. -/
theorem head?_strip {cs : List Char} {ps : List Part} (h : Reads cs ps) (hslash : cs.head? ≠ some '/') :
    (strip .plain cs).head? = cs.head? := by
  cases h with
  | nil => rfl
  | @cons p rest ps hp _ =>
    cases p with
    | plain c | string body => rw [strip_part hp]; rfl
    | line body | block body => exact absurd rfl hslash

/-- A string stands before what is left of the rest. -/
theorem Inside.strip {rest body : List Char} {m : Mode} (h : Inside rest m body) (hm : m = .string) :
    Inside (Comment.strip .plain rest) .string body := by
  induction h with
  | unclosed m hrest => exact .unclosed _ (by rw [hrest]; rfl)
  | backslash hrest => exact .backslash (by rw [hrest]; rfl)
  | quote => exact .quote
  | escape c _ ih => exact .escape c (ih hm)
  | char hquote hbackslash _ ih => exact .char hquote hbackslash (ih hm)
  | lineEnd | onLine | close | inBlock => cases hm

/-- What is left is read as the parts that are kept. -/
theorem reads_kept {cs : List Char} {ps : List Part} (h : Reads cs ps) : Reads (strip .plain cs) (kept ps) := by
  induction h with
  | nil => exact .nil
  | @cons p rest ps hp h ih =>
    rw [strip_part hp, kept_cons]
    cases p with
    | plain c =>
      refine .cons (p := .plain c) ⟨hp.1, fun hc d hd => hp.2 hc d ?_⟩ ih
      -- after a slash no comment starts, so the same character follows as before
      rwa [head?_strip h fun hrest => (hp.2 hc _ hrest).1 rfl] at hd
    | string body => exact .cons (p := .string body) (Inside.strip hp rfl) ih
    | line body | block body => exact ih

theorem length_strip_le {cs : List Char} {ps : List Part} (h : Reads cs ps) :
    (strip .plain cs).length ≤ cs.length :=
  calc
    (strip .plain cs).length = ((kept ps).flatMap Part.text).length := by rw [strip_of_reads h]
    _ ≤ (ps.flatMap Part.text).length := (List.filter_sublist.flatMap Part.text).length_le
    _ = cs.length := by rw [← h.eq]

/-- A text without comments is left as it is, and no other one. -/
theorem strip_eq_self_iff {cs : List Char} {ps : List Part} (h : Reads cs ps) :
    strip .plain cs = cs ↔ ∀ p ∈ ps, p.isComment = false := by
  induction h with
  | nil => simp [strip]
  | @cons p rest ps hp h ih =>
    rw [strip_part hp, List.forall_mem_cons]
    cases hcomment : p.isComment with
    | true =>
      refine iff_of_false (fun heq => ?_) (by simp)
      have hlength := congrArg List.length heq
      have hle := length_strip_le h
      have hpos : 0 < p.text.length := by cases p <;> simp [Part.text]
      simp only [if_pos, List.nil_append, List.length_append] at hlength
      omega
    | false => simpa using ih

/-- A text has parts. Without its comments it is the other parts as they are, which are also its parts: strings are
kept with whatever they hold, and a line comment leaves the end of its line. It stays as it is exactly if it has no
comments, and so does what is left. -/
theorem comments_removed (text : String) :
    (∃ ps, Reads text.toList ps) ∧
    (∀ ps, Reads text.toList ps → (remove text).toList = (kept ps).flatMap Part.text ∧
      Reads (remove text).toList (kept ps) ∧ (remove text = text ↔ ∀ p ∈ ps, p.isComment = false)) ∧
    remove (remove text) = remove text := by
  have hreads (ps : List Part) (h : Reads text.toList ps) : Reads (remove text).toList (kept ps) := by
    rw [remove, String.toList_ofList]
    exact reads_kept h
  obtain ⟨ps, hps⟩ := continues .plain text.toList
  refine ⟨⟨ps, hps⟩, fun qs hqs => ⟨?_, hreads qs hqs, ?_⟩, ?_⟩
  · rw [remove, String.toList_ofList, strip_of_reads hqs]
  · rw [← strip_eq_self_iff hqs, remove, ← String.toList_inj, String.toList_ofList]
  · -- the parts that are kept hold no comments
    rw [← String.toList_inj, remove, String.toList_ofList, strip_eq_self_iff (hreads ps hps)]
    intro p hp
    simpa using (List.mem_filter.1 hp).2

/-- Comment markers in a string, an escaped quote, a slash before a comment, and a block that is not closed. -/
example : remove "\"a\\\"//\" / /*/ b*/1//c\n/*d" = "\"a\\\"//\" / 1\n" := by decide

end TypedTemplate.Comment
