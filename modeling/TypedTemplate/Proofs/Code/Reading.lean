/-
Reading generated code. A reader goes through the code character by character and keeps the brackets that
are open, each with the code from there to the end of what is read: the braces among them are the blocks
around that end, and a block declares the names that it opens with. Brackets in strings and in the text of
template literals do not count; a slash, with which a comment or a regular expression could start, is
refused. Code is balanced if it is read to its end with nothing left open, and with every string on one line.
-/
import TypedTemplate.Emit.Name
import Mathlib.Tactic

namespace TypedTemplate.Code

open Emit (isIdentifierChar)

/-! ## The reader -/

/-- What the next character is a part of. -/
inductive Mode where
  | code
  | string (quote : Char)
  /-- A string, after a backslash. -/
  | escaped (quote : Char)
  /-- The text of a template literal. -/
  | literal
  | literalEscaped
  /-- The text of a template literal, after a dollar sign. -/
  | dollar
  deriving Repr, DecidableEq

inductive Opener where
  | paren
  | bracket
  | brace
  /-- The opening of an expression in a template literal. -/
  | hole
  deriving Repr, DecidableEq

/-- An open bracket, and the code from there on. -/
structure Frame where
  opener : Opener
  inside : List Char
  deriving Repr, DecidableEq

/-- The open brackets, the innermost first. -/
structure State where
  mode : Mode
  frames : List Frame
  deriving Repr, DecidableEq

/-- What a character does in code. -/
inductive Role where
  | opens (opener : Opener)
  | closes
  | quotes
  | backtick
  | slash
  | plain
  deriving Repr, DecidableEq

def role : Char → Role
  | '(' => .opens .paren
  | '[' => .opens .bracket
  | '{' => .opens .brace
  | ')' | ']' | '}' => .closes
  | '"' | '\'' => .quotes
  | '`' => .backtick
  | '/' => .slash
  | _ => .plain

/-- What comes after the character that closes a bracket, if it does. -/
def Opener.closedBy : Opener → Char → Option Mode
  | .paren, ')' => some .code
  | .bracket, ']' => some .code
  | .brace, '}' => some .code
  | .hole, '}' => some .literal
  | _, _ => none

/-- Leaves the innermost bracket. -/
def close (c : Char) : List Frame → Option State
  | [] => none
  | f :: fs => (f.opener.closedBy c).map fun m => ⟨m, fs⟩

/-- One character of code, before `rest`. -/
def codeStep (rest : List Char) (fs : List Frame) (c : Char) : Option State :=
  match role c with
  | .opens o => some ⟨.code, ⟨o, rest⟩ :: fs⟩
  | .closes => close c fs
  | .quotes => some ⟨.string c, fs⟩
  | .backtick => some ⟨.literal, fs⟩
  | .slash => none
  | .plain => some ⟨.code, fs⟩

/-- One character of the text of a template literal. -/
def literalStep : Char → Mode
  | '`' => .code
  | '\\' => .literalEscaped
  | '$' => .dollar
  | _ => .literal

/-- One character, before `rest`. -/
def step (rest : List Char) (s : State) (c : Char) : Option State :=
  match s.mode with
  | .code => codeStep rest s.frames c
  | .string q => some ⟨if c = '\\' then .escaped q else if c = q then .code else .string q, s.frames⟩
  | .escaped q => some ⟨.string q, s.frames⟩
  | .literal => some ⟨literalStep c, s.frames⟩
  | .literalEscaped => some ⟨.literal, s.frames⟩
  | .dollar =>
    if c = '{' then some ⟨.code, ⟨.hole, rest⟩ :: s.frames⟩ else some ⟨literalStep c, s.frames⟩

/-- Reads code; none if a bracket is closed that is not the innermost. -/
def read : State → List Char → Option State
  | s, [] => some s
  | s, c :: rest =>
    match step rest s c with
    | some s' => read s' rest
    | none => none

/-- The characters that end a line. -/
def isLineEnd (c : Char) : Bool := c == '\n' || c == '\r'

def Mode.isString : Mode → Bool
  | .string _ => true
  | _ => false

/-- One character, before `rest`, with every string on one line. -/
def lineStep (rest : List Char) (s : State) (c : Char) : Option State :=
  if s.mode.isString && isLineEnd c then none else step rest s c

/-- Reads code; none also if a line ends in a string. -/
def scan : State → List Char → Option State
  | s, [] => some s
  | s, c :: rest => (lineStep rest s c).bind fun s' => scan s' rest

/-- Whether all strings and template literals of a code end, strings on the line where they start, and its
brackets are closed in the reverse order of their opening. -/
def balanced (code : List Char) : Bool := scan ⟨.code, []⟩ code = some ⟨.code, []⟩

example : balanced "f(\"(\\\"\", `\\`$\x7b[a, `\x7d`]\x7d)`);".toList = true := by decide

example : balanced "f(\"\n\")".toList = false ∧ balanced "(]".toList = false ∧ balanced "`$\x7b".toList = false := by
  decide

/-- The blocks among open brackets. -/
def blocks (fs : List Frame) : List (List Char) :=
  (fs.filter fun f => f.opener = .brace).map (·.inside)

/-- The blocks around the end of code, the innermost first: of each, the code from its brace on. -/
def openBlocks (code : List Char) : Option (List (List Char)) :=
  (read ⟨.code, []⟩ code).map fun s => blocks s.frames

/-! ## Declarations -/

def isBlank (c : Char) : Bool := c == ' ' || c == '\n'

/-- The names between brackets, up to the closing one. -/
def patternNames (cs : List Char) : List String :=
  (((cs.takeWhile (· != ']')).splitOn ',').map fun n => n.dropWhile isBlank).filterMap fun n =>
    if n.isEmpty then none else some (String.ofList n)

/-- The names that a block opens with the declaration of. -/
def declared (block : List Char) : List String :=
  let cs := block.dropWhile isBlank
  if cs.takeWhile isIdentifierChar = "const".toList then
    match cs.dropWhile isIdentifierChar with
    | ' ' :: '[' :: rest => patternNames rest
    | ' ' :: rest => [String.ofList (rest.takeWhile isIdentifierChar)]
    | _ => []
  else []

example : (openBlocks "\x7b const [a, __if] = x; f(\"\x7b\", \x7b k: ".toList).map (·.map declared) =
    some [[], ["a", "__if"]] := by decide

variable {c : Char} {m m' : Mode} {fs fs' gs : List Frame} {rest cs ds blanks word : List Char} {l : List Opener}

/-! ## Reading a part -/

theorem close_append (h : close c fs = some ⟨m, fs'⟩) (hgs : gs.map (·.opener) = fs.map (·.opener))
    (base : List Frame) :
    ∃ gs', close c (gs ++ base) = some ⟨m, gs' ++ base⟩ ∧
      gs'.map (·.opener) = fs'.map (·.opener) := by
  cases fs with
  | nil => cases h
  | cons f fs =>
    cases gs with
    | nil => cases hgs
    | cons g gs =>
      simp only [List.map_cons, List.cons.injEq] at hgs
      obtain ⟨m', hm, hstate⟩ := Option.map_eq_some_iff.1 h
      cases hstate
      refine ⟨gs, ?_, hgs.2⟩
      rw [List.cons_append, close, hgs.1, hm]
      rfl

theorem codeStep_append {rest' : List Char} (h : codeStep rest fs c = some ⟨m, fs'⟩)
    (hgs : gs.map (·.opener) = fs.map (·.opener)) (base : List Frame) :
    ∃ gs', codeStep rest' (gs ++ base) c = some ⟨m, gs' ++ base⟩ ∧
      gs'.map (·.opener) = fs'.map (·.opener) := by
  unfold codeStep at h ⊢
  cases hrole : role c with
  | opens o =>
    rw [hrole] at h
    cases h
    exact ⟨⟨o, rest'⟩ :: gs, rfl, by simp [hgs]⟩
  | closes =>
    rw [hrole] at h
    exact close_append h hgs base
  | slash =>
    rw [hrole] at h
    cases h
  | quotes | backtick | plain =>
    rw [hrole] at h
    cases h
    exact ⟨gs, rfl, hgs⟩

/-- A step is the same whatever brackets are open around and whatever code comes next. -/
theorem step_append (h : step rest ⟨m, fs⟩ c = some ⟨m', fs'⟩) (hgs : gs.map (·.opener) = fs.map (·.opener))
    (base : List Frame) (rest' : List Char) :
    ∃ gs', step rest' ⟨m, gs ++ base⟩ c = some ⟨m', gs' ++ base⟩ ∧
      gs'.map (·.opener) = fs'.map (·.opener) := by
  cases m with
  | code => exact codeStep_append h hgs base
  | string q | escaped q | literal | literalEscaped =>
    cases h
    exact ⟨gs, rfl, hgs⟩
  | dollar =>
    unfold step at h ⊢
    dsimp only at h ⊢
    split at h
    · rename_i hc
      cases h
      exact ⟨⟨.hole, rest'⟩ :: gs, by rw [if_pos hc]; rfl, by simp [hgs]⟩
    · rename_i hc
      cases h
      exact ⟨gs, by rw [if_neg hc], hgs⟩

theorem lineStep_append (h : lineStep rest ⟨m, fs⟩ c = some ⟨m', fs'⟩) (hgs : gs.map (·.opener) = fs.map (·.opener))
    (base : List Frame) (rest' : List Char) :
    ∃ gs', lineStep rest' ⟨m, gs ++ base⟩ c = some ⟨m', gs' ++ base⟩ ∧
      gs'.map (·.opener) = fs'.map (·.opener) := by
  unfold lineStep at h ⊢
  split at h
  · cases h
  · rename_i hline
    obtain ⟨gs', hstep, hgs'⟩ := step_append h hgs base rest'
    exact ⟨gs', by rw [if_neg hline]; exact hstep, hgs'⟩

theorem scan_cons (s : State) (c : Char) (rest : List Char) :
    scan s (c :: rest) = (lineStep rest s c).bind fun s' => scan s' rest := rfl

/-- Reading goes on as it started, whatever brackets are open around and whatever code comes next. -/
theorem scan_append (base : List Frame) (next : List Char) :
    ∀ {cs : List Char} {m : Mode} {fs gs : List Frame}, scan ⟨m, fs⟩ cs = some ⟨m', fs'⟩ →
      gs.map (·.opener) = fs.map (·.opener) →
        ∃ gs', gs'.map (·.opener) = fs'.map (·.opener) ∧
          scan ⟨m, gs ++ base⟩ (cs ++ next) = scan ⟨m', gs' ++ base⟩ next
  | [], m, fs, gs, h, hgs => by
    cases h
    exact ⟨gs, hgs, rfl⟩
  | c :: cs, m, fs, gs, h, hgs => by
    obtain ⟨s, hstep, h⟩ := Option.bind_eq_some_iff.1 h
    obtain ⟨gs₁, hstep', hgs₁⟩ := lineStep_append hstep hgs base (cs ++ next)
    obtain ⟨gs', hgs', hscan⟩ := scan_append base next h hgs₁
    exact ⟨gs', hgs', by rw [List.cons_append, scan_cons, hstep']; exact hscan⟩

/-- What is read with every string on one line is read without asking for that. -/
theorem read_of_scan {s s' : State} (h : scan s cs = some s') : read s cs = some s' := by
  induction cs generalizing s with
  | nil => exact h
  | cons c cs ih =>
    obtain ⟨s₁, hstep, h⟩ := Option.bind_eq_some_iff.1 h
    unfold lineStep at hstep
    split at hstep
    · cases hstep
    · rw [read, hstep]
      exact ih h

/-- In code with the brackets `k` open, reading `cs` leaves the brackets `l` open. Around those of `k`, and
after `cs`, anything may stand. -/
def Reads (k l : List Opener) (cs : List Char) : Prop :=
  ∀ (fs base : List Frame) (next : List Char), fs.map (·.opener) = k →
    ∃ fs', fs'.map (·.opener) = l ∧
      scan ⟨.code, fs ++ base⟩ (cs ++ next) = scan ⟨.code, fs' ++ base⟩ next

/-- Code that leaves the brackets around it as they are. -/
def Bracketed (cs : List Char) : Prop :=
  ∀ (fs : List Frame) (next : List Char), scan ⟨.code, fs⟩ (cs ++ next) = scan ⟨.code, fs⟩ next

theorem Bracketed.reads (h : Bracketed cs) (k : List Opener) : Reads k k cs :=
  fun fs base next hfs => ⟨fs, hfs, h (fs ++ base) next⟩

theorem Reads.bracketed (h : Reads [] [] cs) : Bracketed cs := by
  intro fs next
  obtain ⟨fs', hfs', hread⟩ := h [] fs next rfl
  rw [List.map_eq_nil_iff.1 hfs'] at hread
  exact hread

theorem Reads.append {k l' : List Opener} (hc : Reads k l cs) (hd : Reads l l' ds) : Reads k l' (cs ++ ds) := by
  intro fs base next hfs
  obtain ⟨fs₁, hfs₁, hread₁⟩ := hc fs base (ds ++ next) hfs
  obtain ⟨fs₂, hfs₂, hread₂⟩ := hd fs₁ base next hfs₁
  exact ⟨fs₂, hfs₂, by rw [List.append_assoc, hread₁, hread₂]⟩

theorem bracketed_nil : Bracketed [] := fun _ _ => rfl

theorem Bracketed.append (hc : Bracketed cs) (hd : Bracketed ds) : Bracketed (cs ++ ds) := by
  intro fs next
  rw [List.append_assoc, hc, hd]

/-- The brackets that are open after a text in which only whole strings and literals stand. -/
def after (k : List Opener) (text : String) : Option (List Opener) :=
  match scan ⟨.code, k.map fun o => ⟨o, []⟩⟩ text.toList with
  | some ⟨.code, fs⟩ => some (fs.map (·.opener))
  | _ => none

theorem reads_of_after {k : List Opener} {text : String} (h : after k text = some l) : Reads k l text.toList := by
  intro fs base next hfs
  unfold after at h
  split at h
  · rename_i fs₁ hread
    cases h
    exact scan_append base next hread (by simp [hfs, Function.comp_def])
  · cases h

theorem bracketed_text {text : String} (h : after [] text = some []) : Bracketed text.toList :=
  (reads_of_after h).bracketed

/-- Characters that are neither brackets nor quotes. -/
theorem bracketed_plain (h : ∀ c ∈ cs, role c = .plain) : Bracketed cs := by
  intro fs next
  induction cs with
  | nil => rfl
  | cons c cs ih =>
    have hstep : lineStep (cs ++ next) ⟨.code, fs⟩ c = some ⟨.code, fs⟩ := by
      show codeStep (cs ++ next) fs c = _
      rw [codeStep, h c List.mem_cons_self]
    rw [List.cons_append, scan_cons, hstep]
    exact ih fun c' hc => h c' (List.mem_cons_of_mem c hc)

theorem bracketed_blanks (h : ∀ c ∈ cs, isBlank c = true) : Bracketed cs := by
  refine bracketed_plain fun c hc => ?_
  have hc := h c hc
  simp only [isBlank, Bool.or_eq_true, beq_iff_eq] at hc
  rcases hc with rfl | rfl <;> rfl

/-! ## Strings -/

/-- A character that may stand as it is between double quotes. -/
def isQuotable (c : Char) : Bool := c != '"' && c != '\\' && !isLineEnd c

theorem scan_quotable (h : isQuotable c = true) (fs : List Frame) (next : List Char) :
    scan ⟨.string '"', fs⟩ (c :: next) = scan ⟨.string '"', fs⟩ next := by
  simp only [isQuotable, Bool.and_eq_true, bne_iff_ne, Bool.not_eq_eq_eq_not, Bool.not_true] at h
  obtain ⟨⟨hquote, hbackslash⟩, hline⟩ := h
  rw [scan_cons, lineStep, hline, Bool.and_false, if_neg Bool.false_ne_true]
  simp only [step, if_neg hbackslash, if_neg hquote, Option.bind_some]

/-- What may stand between double quotes is a string between them. -/
theorem bracketed_string (h : ∀ c ∈ cs, isQuotable c = true) : Bracketed ('"' :: cs ++ ['"']) := by
  intro fs next
  have hinside (rest : List Char) :
      scan ⟨.string '"', fs⟩ (cs ++ rest) = scan ⟨.string '"', fs⟩ rest := by
    induction cs with
    | nil => rfl
    | cons c cs ih =>
      rw [List.cons_append, scan_quotable (h c List.mem_cons_self)]
      exact ih fun c' hc => h c' (List.mem_cons_of_mem c hc)
  rw [List.append_assoc]
  show scan ⟨.string '"', fs⟩ (cs ++ '"' :: next) = _
  rw [hinside]
  rfl

/-! ## Blocks around a part -/

/-- After `cs` and whatever comes next, the blocks that were opened in `cs` and not closed declare
`names`, the innermost first. -/
def Leads (cs : List Char) (names : List (List String)) : Prop :=
  ∀ (base : List Frame) (next : List Char), ∃ fs,
    scan ⟨.code, base⟩ (cs ++ next) = scan ⟨.code, fs ++ base⟩ next ∧
      (blocks fs).map declared = names

/-- A block that starts with `cs` declares `names`. -/
def Opens (cs : List Char) (names : List String) : Prop :=
  ∀ next, declared (cs ++ next) = names

theorem blocks_append (fs gs : List Frame) : blocks (fs ++ gs) = blocks fs ++ blocks gs := by
  simp [blocks]

theorem blocks_eq_nil (hfs : fs.map (·.opener) = l) (hl : .brace ∉ l) : blocks fs = [] := by
  have hnone : ∀ f ∈ fs, f.opener ≠ .brace := by
    rintro f hf heq
    exact hl (hfs ▸ heq ▸ List.mem_map_of_mem hf)
  rw [blocks, List.filter_eq_nil_iff.2 (by simpa using hnone)]
  rfl

theorem leads_nil : Leads [] [] := fun _ _ => ⟨[], rfl, rfl⟩

theorem Leads.after {names : List (List String)} (hd : Leads ds names) (hc : Reads [] l cs) (hl : .brace ∉ l) :
    Leads (cs ++ ds) names := by
  intro base next
  obtain ⟨fs₁, hfs₁, hread₁⟩ := hc [] base (ds ++ next) rfl
  obtain ⟨fs₂, hread₂, hfs₂⟩ := hd (fs₁ ++ base) next
  refine ⟨fs₂ ++ fs₁, ?_, by rw [blocks_append, blocks_eq_nil hfs₁ hl, List.append_nil, hfs₂]⟩
  rw [List.append_assoc, List.append_assoc]
  exact hread₁.trans hread₂

theorem Leads.after_bracketed {names : List (List String)} (hd : Leads ds names) (hc : Bracketed cs) :
    Leads (cs ++ ds) names :=
  hd.after (hc.reads []) List.not_mem_nil

theorem Leads.block {names : List (List String)} {own : List String} (hc : Leads cs names) (hopens : Opens cs own) :
    Leads ('{' :: cs) (names ++ [own]) := by
  intro base next
  obtain ⟨fs, hread, hfs⟩ := hc (⟨.brace, cs ++ next⟩ :: base) next
  refine ⟨fs ++ [⟨.brace, cs ++ next⟩], ?_, ?_⟩
  · rw [List.append_assoc]
    exact hread
  · rw [blocks_append, List.map_append, hfs]
    show names ++ [declared (cs ++ next)] = _
    rw [hopens next]

/-! ## What a block opens with -/

/-- Code on its own. -/
theorem Leads.openBlocks {names : List (List String)} (h : Leads cs names) :
    ∃ bs, Code.openBlocks cs = some bs ∧ bs.map declared = names := by
  obtain ⟨fs, hread, hfs⟩ := h [] []
  rw [List.append_nil, List.append_nil] at hread
  exact ⟨blocks fs, by rw [Code.openBlocks, read_of_scan hread]; rfl, hfs⟩

theorem Opens.append {names : List String} (h : Opens cs names) (ds : List Char) : Opens (cs ++ ds) names := by
  intro next
  rw [List.append_assoc]
  exact h (ds ++ next)

theorem takeWhile_append_cons {p : Char → Bool} (hcs : ∀ x ∈ cs, p x = true) (hc : p c = false) (rest : List Char) :
    (cs ++ c :: rest).takeWhile p = cs := by
  rw [List.takeWhile_append_of_pos hcs, List.takeWhile_cons_of_neg (by simp [hc]), List.append_nil]

theorem dropWhile_append_cons {p : Char → Bool} (hcs : ∀ x ∈ cs, p x = true) (hc : p c = false) (rest : List Char) :
    (cs ++ c :: rest).dropWhile p = c :: rest := by
  rw [List.dropWhile_append_of_pos hcs, List.dropWhile_cons_of_neg (by simp [hc])]

theorem isBlank_of_identifier (h : isIdentifierChar c = true) : isBlank c = false := by
  rw [isBlank, Bool.or_eq_false_iff, beq_eq_false_iff_ne, beq_eq_false_iff_ne]
  constructor <;> rintro rfl <;> exact absurd h (by decide)

/-- Past its blanks a block starts with a word, which ends at a character of another kind. -/
theorem declared_word (hblanks : ∀ x ∈ blanks, isBlank x = true) (hword : ∀ x ∈ word, isIdentifierChar x = true)
    (hc : isIdentifierChar c = false) (hstart : word ≠ [] ∨ isBlank c = false) (next : List Char) :
    declared (blanks ++ word ++ c :: next) =
      if word = "const".toList then
        match c :: next with
        | ' ' :: '[' :: rest => patternNames rest
        | ' ' :: rest => [String.ofList (rest.takeWhile isIdentifierChar)]
        | _ => []
      else [] := by
  have hdrop : (blanks ++ word ++ c :: next).dropWhile isBlank = word ++ c :: next := by
    rw [List.append_assoc, List.dropWhile_append_of_pos hblanks]
    cases word with
    | nil => exact List.dropWhile_cons_of_neg (by simp [hstart.resolve_left (fun h => h rfl)])
    | cons w ws =>
      exact List.dropWhile_cons_of_neg (by simp [isBlank_of_identifier (hword w List.mem_cons_self)])
  unfold declared
  simp only [hdrop, takeWhile_append_cons hword hc, dropWhile_append_cons hword hc]

/-- A block that starts with a word declares nothing, unless the word is `const` and a blank follows. -/
theorem opens_word (hblanks : ∀ x ∈ blanks, isBlank x = true) (hword : ∀ x ∈ word, isIdentifierChar x = true)
    (hc : isIdentifierChar c = false) (hstart : word ≠ [] ∨ isBlank c = false)
    (hconst : word = "const".toList → c ≠ ' ') : Opens (blanks ++ word ++ [c]) [] := by
  intro next
  rw [List.append_assoc, List.singleton_append, declared_word hblanks hword hc hstart]
  split
  · rename_i hword'
    have hne := hconst hword'
    split
    · rename_i heq
      exact absurd (List.cons.inj heq).1 hne
    · rename_i heq
      exact absurd (List.cons.inj heq).1 hne
    · rfl
  · rfl

/-- A block that starts with `cs`, maybe after blanks, declares nothing. -/
def Plain (cs : List Char) : Prop :=
  ∀ blanks : List Char, (∀ x ∈ blanks, isBlank x = true) → Opens (blanks ++ cs) []

theorem Plain.append (h : Plain cs) (ds : List Char) : Plain (cs ++ ds) := by
  intro blanks hblanks
  rw [← List.append_assoc]
  exact (h blanks hblanks).append ds

theorem Plain.after_blanks (h : Plain ds) (hcs : ∀ x ∈ cs, isBlank x = true) : Plain (cs ++ ds) := by
  intro blanks hblanks
  rw [← List.append_assoc]
  refine h (blanks ++ cs) fun x hx => ?_
  rcases List.mem_append.1 hx with hx | hx
  · exact hblanks x hx
  · exact hcs x hx

theorem plain_word (hword : ∀ x ∈ word, isIdentifierChar x = true) (hc : isIdentifierChar c = false)
    (hstart : word ≠ [] ∨ isBlank c = false) (hconst : word = "const".toList → c ≠ ' ') : Plain (word ++ [c]) := by
  intro blanks hblanks
  rw [← List.append_assoc]
  exact opens_word hblanks hword hc hstart hconst

/-- Whether a text starts with a word that declares nothing. -/
def startsPlain (cs : List Char) : Bool :=
  match cs.dropWhile isIdentifierChar with
  | [] => false
  | c :: _ =>
    let word := cs.takeWhile isIdentifierChar
    (word != [] || !isBlank c) && (word != "const".toList || c != ' ')

theorem plain_of_startsPlain (h : startsPlain cs = true) : Plain cs := by
  unfold startsPlain at h
  split at h
  · cases h
  · rename_i c rest hdrop
    have hc : isIdentifierChar c = false := by
      have := List.head?_dropWhile_not isIdentifierChar cs
      rw [hdrop] at this
      simpa using this
    simp only [Bool.and_eq_true, Bool.or_eq_true, bne_iff_ne, Bool.not_eq_eq_eq_not, Bool.not_true] at h
    have hcs : cs = cs.takeWhile isIdentifierChar ++ [c] ++ rest := by
      rw [List.append_assoc, List.singleton_append, ← hdrop, List.takeWhile_append_dropWhile]
    rw [hcs]
    refine (plain_word (List.all_eq_true.1 List.all_takeWhile) hc h.1 fun hword => ?_).append rest
    exact h.2.resolve_left fun hne => hne hword

theorem const_identifier : ∀ x ∈ "const".toList, isIdentifierChar x = true :=
  List.all_eq_true.1 (by decide)

/-- A block that starts with the declaration of one name. -/
theorem opens_name (name : List Char) (hblanks : ∀ x ∈ blanks, isBlank x = true)
    (hname : ∀ x ∈ name, isIdentifierChar x = true) (hne : name ≠ []) (hc : isIdentifierChar c = false) :
    Opens (blanks ++ "const ".toList ++ (name ++ [c])) [String.ofList name] := by
  intro next
  have hsplit : blanks ++ "const ".toList ++ (name ++ [c]) ++ next =
      blanks ++ "const".toList ++ ' ' :: (name ++ c :: next) := by simp
  rw [hsplit, declared_word hblanks const_identifier (by decide) (.inl (by decide)), if_pos rfl]
  cases name with
  | nil => exact absurd rfl hne
  | cons a as =>
    have ha : a ≠ '[' := by
      rintro rfl
      exact absurd (hname '[' List.mem_cons_self) (by decide)
    have htake := takeWhile_append_cons hname hc next
    rw [List.cons_append] at htake ⊢
    split
    · rename_i heq
      simp only [List.cons.injEq] at heq
      exact absurd heq.2.1 ha
    · rename_i heq
      cases heq
      rw [htake]
    · rename_i hnot
      exact absurd rfl (hnot _)

theorem intercalate_comma (n : List Char) (ns : List (List Char)) :
    [',', ' '].intercalate (n :: ns) = [','].intercalate (n :: ns.map (' ' :: ·)) := by
  induction ns generalizing n with
  | nil => rfl
  | cons m ns ih =>
    have hm := ih (' ' :: m)
    simp only [List.intercalate, List.intersperse_cons_cons, List.flatten_cons, List.map_cons] at hm ih ⊢
    have hhead : ∀ (sep : List Char) (rest : List (List Char)),
        (List.intersperse sep ((' ' :: m) :: rest)).flatten =
          ' ' :: (List.intersperse sep (m :: rest)).flatten := by
      intro sep rest
      cases rest <;> simp
    rw [← hm, hhead]
    simp

theorem mem_intercalate {sep : List Char} {x : Char} : ∀ {names : List (List Char)},
    x ∈ sep.intercalate names → x ∈ sep ∨ ∃ n ∈ names, x ∈ n
  | [], h => by cases h
  | [n], h => by
    rw [List.intercalate, List.intersperse_singleton, List.flatten_singleton] at h
    exact .inr ⟨n, List.mem_singleton.2 rfl, h⟩
  | n :: m :: ns, h => by
    rw [List.intercalate, List.intersperse_cons_cons, List.flatten_cons, List.flatten_cons] at h
    rcases List.mem_append.1 h with h | h
    · exact .inr ⟨n, List.mem_cons_self, h⟩
    · rcases List.mem_append.1 h with h | h
      · exact .inl h
      · rcases mem_intercalate h with h | ⟨k, hk, hx⟩
        · exact .inl h
        · exact .inr ⟨k, List.mem_cons_of_mem n hk, hx⟩

/-- Names with commas between them are read back. -/
theorem patternNames_intercalate {names : List (List Char)}
    (h : ∀ n ∈ names, n ≠ [] ∧ ∀ x ∈ n, isIdentifierChar x = true) (next : List Char) :
    patternNames ([',', ' '].intercalate names ++ ']' :: next) = names.map String.ofList := by
  have hother {n : List Char} (hn : n ∈ names) {x : Char} (hx : isIdentifierChar x = false) : x ∉ n :=
    fun hmem => absurd ((h n hn).2 x hmem) (by rw [hx]; exact Bool.false_ne_true)
  have hchars : ∀ x ∈ [',', ' '].intercalate names, (x != ']') = true := by
    intro x hx
    rw [bne_iff_ne]
    rintro rfl
    rcases mem_intercalate hx with hsep | ⟨n, hn, hmem⟩
    · exact absurd hsep (by decide)
    · exact hother hn (by decide) hmem
  -- past its blanks each name is itself
  have htrim : ∀ n ∈ names, n.dropWhile isBlank = n := by
    intro n hn
    cases n with
    | nil => rfl
    | cons a as =>
      have ha := isBlank_of_identifier ((h _ hn).2 a List.mem_cons_self)
      exact List.dropWhile_cons_of_neg (by simp [ha])
  have hkeep : ∀ n ∈ names, (if n.isEmpty then none else some (String.ofList n)) =
      some (String.ofList n) := by
    intro n hn
    rw [if_neg]
    simpa using (h n hn).1
  unfold patternNames
  rw [takeWhile_append_cons hchars (by decide)]
  cases names with
  | nil => rfl
  | cons n ns =>
    rw [intercalate_comma, List.splitOn_intercalate _ (fun l hl => ?_) (List.cons_ne_nil _ _)]
    · have hns : ns.map ((fun n => n.dropWhile isBlank) ∘ (' ' :: ·)) = ns := by
        conv_rhs => rw [← List.map_id ns]
        refine List.map_congr_left fun m hm => ?_
        show (' ' :: m).dropWhile isBlank = m
        rw [List.dropWhile_cons_of_pos (by decide)]
        exact htrim m (List.mem_cons_of_mem n hm)
      rw [List.map_cons, List.map_map, htrim n List.mem_cons_self, hns]
      exact List.filterMap_eq_map_iff_forall_eq_some.2 hkeep
    · rcases List.mem_cons.1 hl with rfl | hl
      · exact hother List.mem_cons_self (by decide)
      · obtain ⟨m, hm, rfl⟩ := List.mem_map.1 hl
        simpa using hother (List.mem_cons_of_mem n hm) (show isIdentifierChar ',' = false by decide)

/-- A block that starts with the declaration of a pattern. -/
theorem opens_pattern (names : List (List Char)) (hblanks : ∀ x ∈ blanks, isBlank x = true)
    (h : ∀ n ∈ names, n ≠ [] ∧ ∀ x ∈ n, isIdentifierChar x = true) :
    Opens (blanks ++ "const [".toList ++ [',', ' '].intercalate names ++ [']'])
      (names.map String.ofList) := by
  intro next
  have hsplit : blanks ++ "const [".toList ++ [',', ' '].intercalate names ++ [']'] ++ next =
      blanks ++ "const".toList ++ ' ' :: '[' :: ([',', ' '].intercalate names ++ ']' :: next) := by
    simp
  rw [hsplit, declared_word hblanks const_identifier (by decide) (.inl (by decide)), if_pos rfl]
  exact patternNames_intercalate h next

end TypedTemplate.Code
