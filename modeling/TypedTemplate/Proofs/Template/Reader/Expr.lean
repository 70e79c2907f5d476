/-
What is read lies where it is read and is spelled as it is written, and what cannot be read is shown by a stretch of
the text. A reader yields: what it reads is good, and the span of its error cuts the text. One lemma says so for each
reader, at every place of the text where its bound exceeds the number of characters that are left; readers are put
together from others by `bind`, and so are their lemmas.
-/
import TypedTemplate.Proofs.Template.Spelling
import TypedTemplate.Template.Reader.Expr

namespace TypedTemplate.Template.Reader

open Lexer Text
open TypedTemplate.Span (InOrder lastStop)

variable {source text : String} {kind : TokenKind} {b c d : Cursor} {i : Invocation} {lo hi : Nat}

theorem bind_ok {α β : Type} {x : Read α} {f : α → Read β} {b : β} (h : x >>= f = .ok b) :
    ∃ a, x = .ok a ∧ f a = .ok b := by
  cases x with
  | error e => cases h
  | ok a => exact ⟨a, rfl, h⟩

/-- Every answer of a reader is good, and every error shows a stretch of the text. -/
structure Yields {α : Type} (source : String) (good : α → Prop) (r : Read α) : Prop where
  ok : ∀ a, r = .ok a → good a
  error : ∀ e, r = .error e → e.span.Cuts source

namespace Yields

variable {α β : Type} {P : α → Prop} {Q : β → Prop} {r : Read α}

theorem pure {a : α} (h : P a) : Yields source P (.ok a) where
  ok := by
    rintro _ ⟨⟩
    exact h
  error := by rintro _ ⟨⟩

theorem throw {e : ParseError} (h : e.span.Cuts source) : Yields source P (.error e) where
  ok := by rintro _ ⟨⟩
  error := by
    rintro _ ⟨⟩
    exact h

theorem bind {f : α → Read β} (hr : Yields source P r) (hf : ∀ a, P a → Yields source Q (f a)) :
    Yields source Q (r >>= f) := by
  cases r with
  | ok a => exact hf a (hr.ok a rfl)
  | error e => exact throw (hr.error e rfl)

theorem imp {R : α → Prop} (hr : Yields source P r) (h : ∀ a, P a → R a) : Yields source R r :=
  ⟨fun a ha => h a (hr.ok a ha), hr.error⟩

end Yields

/-- The same for readers that answer what they read with the place after it. -/
def YieldsAt {α : Type} (source : String) (good : α → Cursor → Prop) (r : Read (α × Cursor)) : Prop :=
  Yields source (fun a => good a.1 a.2) r

namespace YieldsAt

variable {α β : Type} {P : α → Cursor → Prop} {Q : β → Cursor → Prop} {r : Read (α × Cursor)}

theorem pure {a : α} (h : P a d) : YieldsAt source P (.ok (a, d)) := Yields.pure h

theorem throw {e : ParseError} (h : e.span.Cuts source) : YieldsAt source P (.error e) := Yields.throw h

theorem bind {f : α × Cursor → Read (β × Cursor)} (hr : YieldsAt source P r)
    (hf : ∀ a d, P a d → YieldsAt source Q (f (a, d))) : YieldsAt source Q (r >>= f) :=
  Yields.bind hr fun ⟨a, d⟩ ha => hf a d ha

theorem bind_ok {f : α × Cursor → Read (β × Cursor)} (hr : YieldsAt source P r)
    (hf : ∀ a d, r = .ok (a, d) → P a d → YieldsAt source Q (f (a, d))) : YieldsAt source Q (r >>= f) := by
  cases r with
  | ok a => exact hf a.1 a.2 rfl (hr.ok a rfl)
  | error e => exact throw (hr.error e rfl)

theorem after {x : Read α} {good : α → Prop} {f : α → Read (β × Cursor)} (hx : Yields source good x)
    (hf : ∀ a, good a → YieldsAt source Q (f a)) : YieldsAt source Q (x >>= f) :=
  Yields.bind hx hf

theorem imp {R : α → Cursor → Prop} (hr : YieldsAt source P r) (h : ∀ a d, P a d → R a d) :
    YieldsAt source R r :=
  Yields.imp hr fun a ha => h a.1 a.2 ha

end YieldsAt

/-! ## Tokens -/

theorem reaches_before (c : Cursor) : c.Reaches (next c).before := c.reaches_skipWhile _

theorem before_reaches_after (c : Cursor) : (next c).before.Reaches (next c).after :=
  (next c).before.reaches_advance _

theorem reaches_after (c : Cursor) : c.Reaches (next c).after :=
  (reaches_before c).trans (before_reaches_after c)

theorem token_in (c : Cursor) : (next c).token.span.In c.pos (next c).after.pos :=
  ⟨(reaches_before c).pos_le, (before_reaches_after c).pos_le, le_rfl⟩

theorem reaches_skip (kind : TokenKind) (c : Cursor) : c.Reaches (skip kind c) := by
  unfold skip
  dsimp only
  split
  · exact reaches_after c
  · exact .refl c

theorem passes_token (c : Cursor) : (next c).before.Passes (next c).token.text (next c).after :=
  Cursor.passes_advance _ _

theorem token_cuts (hc : c.On source) : (next c).token.span.Cuts source :=
  (hc.reaches (reaches_before c)).cuts (before_reaches_after c)

theorem spelled_token (hc : c.On source) : (nameOf (next c).token).Spelled source :=
  (hc.reaches (reaches_before c)).slice (passes_token c)

theorem unexpected_cuts (hc : c.On source) (expected : Expected) :
    (unexpected expected (next c).token).span.Cuts source := by
  unfold unexpected
  split
  · exact token_cuts hc
  · exact token_cuts hc

/-- How a token of a kind is written, for the kinds that have one way to be written. -/
def mark? : TokenKind → Option String
  | .closeTriple => some "\x7d\x7d\x7d"
  | .close => some "\x7d\x7d"
  | .dot => some "."
  | .atSign => some "@"
  | _ => none

theorem scanWord_mark? (cs : List Char) : mark? (scanWord cs).1 = none := by
  unfold scanWord
  split
  · rfl
  · split <;> rfl

theorem scan_mark? (cs : List Char) (h : mark? (scan cs).1 = some text) :
    String.ofList (cs.take (scan cs).2) = text := by
  unfold scan at h ⊢
  split at h
  case h_13 c cs _ _ _ _ _ _ _ _ _ _ _ =>
    split at h
    · dsimp only at h
      split at h <;> cases h
    · rw [scanWord_mark?] at h
      cases h
  all_goals cases h <;> rfl

theorem token_text (h : (next c).token.kind = kind) (hmark : mark? kind = some text) : (next c).token.text = text := by
  subst h
  exact scan_mark? _ hmark

theorem next_length_lt (h : (next c).token.kind = kind) (hkind : kind ≠ .eof) :
    (next c).after.rest.length < c.rest.length :=
  next_after_lt c (h ▸ hkind)

/-- A token that is not the end has a character. -/
theorem token_covers (h : (next c).token.kind = kind) (hkind : kind ≠ .eof) :
    (next c).before.Covers (next c).token.span (next c).after := by
  refine ⟨before_reaches_after c, (before_reaches_after c).length_lt ?_, rfl⟩
  cases hcs : (c.skipWhile isSeparator).rest with
  | nil =>
    refine absurd h fun h => hkind ?_
    simpa [next, hcs, scan] using h.symm
  | cons d ds =>
    have hlt := Cursor.advance_lt (c := c.skipWhile isSeparator) (by simp [hcs]) (scan_pos d ds)
    simpa only [next, hcs] using hlt

theorem expect_yields (hc : c.On source) (kind : TokenKind) :
    YieldsAt source (fun t d => (next c).token.kind = kind ∧ t = (next c).token ∧ d = (next c).after)
      (expect kind c) := by
  unfold expect
  dsimp only
  split
  · rename_i hkind
    exact .pure ⟨hkind, rfl, rfl⟩
  · exact .throw (unexpected_cuts hc _)

/-- The braces that close a mustache. -/
def closing (trusting : Bool) : String := if trusting then "\x7d\x7d\x7d" else "\x7d\x7d"

/-- Closing braces are passed over, and nothing else after them. -/
theorem expectClose_yields (hc : c.On source) (trusting : Bool) :
    Yields source (fun d => ∃ b, c.Reaches b ∧ b.Passes (closing trusting) d) (expectClose trusting c) := by
  unfold expectClose
  dsimp only
  have hpasses := passes_token c
  split
  · rename_i hkind
    rw [token_text hkind rfl] at hpasses
    exact .pure ⟨_, reaches_before c, hpasses⟩
  · rename_i hkind
    rw [token_text hkind rfl] at hpasses
    exact .pure ⟨_, reaches_before c, hpasses⟩
  · rename_i hkind
    rw [token_text hkind rfl] at hpasses
    -- the third brace stays
    have hrest : (next c).before.rest = "\x7d\x7d".toList ++ '\x7d' :: (next c).after.rest := by
      rw [hpasses.rest]
      rfl
    exact .pure ⟨_, reaches_before c, Cursor.passes_of_rest hrest rfl⟩
  · exact .throw (unexpected_cuts hc _)

theorem close_yields (hc : c.On source) (trusting : Bool) :
    Yields source (fun d => ∃ b, c.Reaches b ∧ b.Passes (closing trusting) d)
      (expectClose trusting (skip .tilde c)) := by
  have hskip := reaches_skip .tilde c
  refine (expectClose_yields (hc.reaches hskip) trusting).imp ?_
  rintro d ⟨b, hb, hd⟩
  exact ⟨b, hskip.trans hb, hd⟩

/-! ## Paths -/

/-- The segments of a path after its head, as they are written. -/
def dotted (names : List Name) : String := names.foldl (fun s n => s ++ "." ++ n.text) ""

theorem foldl_dotted (names : List Name) (front : String) :
    names.foldl (fun s n => s ++ "." ++ n.text) front = front ++ dotted names := by
  unfold dotted
  induction names generalizing front with
  | nil => simp
  | cons n names ih =>
    rw [List.foldl_cons, List.foldl_cons, ih, ih ("" ++ "." ++ n.text), String.empty_append,
      String.append_assoc, String.append_assoc, String.append_assoc]

theorem dotted_cons (n : Name) (names : List Name) : dotted (n :: names) = "." ++ (n.text ++ dotted names) := by
  rw [dotted, List.foldl_cons, foldl_dotted, String.empty_append, String.append_assoc]

/-- Names that were read from a place on, with the place after them. -/
structure NamesAt (source : String) (c : Cursor) (names : List Name) (d : Cursor) : Prop where
  spelled : ∀ n ∈ names, n.Spelled source
  inOrder : InOrder c.pos (names.map (·.span)) d.pos

theorem NamesAt.nil (h : c.Reaches d) : NamesAt source c [] d := ⟨List.forall_mem_nil _, h.pos_le⟩

theorem NamesAt.mono {names : List Name} (h : NamesAt source b names d) (hb : c.Reaches b) : NamesAt source c names d :=
  ⟨h.spelled, h.inOrder.mono hb.pos_le le_rfl⟩

theorem NamesAt.cons {a : Cursor} {n : Name} {names : List Name} (h : NamesAt source b names d) (ha : c.Reaches a)
    (hn : a.Passes n.text b) (hspan : n.span = ⟨a.pos, b.pos⟩) (hon : a.On source) :
    NamesAt source c (n :: names) d := by
  have hspelled : n.Spelled source := by
    rw [Name.Spelled, hspan]
    exact hon.slice hn
  refine ⟨List.forall_mem_cons.2 ⟨hspelled, h.spelled⟩, ?_⟩
  rw [List.map_cons, hspan]
  exact ⟨ha.pos_le, hn.reaches.pos_le, h.inOrder⟩

/-- The segments of a path that were read from a place on. They follow what is before them, and each other, without
anything in between. -/
structure SegmentsAt (source : String) (c : Cursor) (names : List Name) (d : Cursor) : Prop extends
    NamesAt source c names d where
  passes : c.Passes (dotted names) d
  stop : lastStop c.pos (names.map (·.span)) = d.pos

theorem readSegments_yields : ∀ {fuel : Nat} {c : Cursor}, c.On source → c.rest.length < fuel →
    YieldsAt source (SegmentsAt source c) (readSegments fuel c.pos c)
  | 0, _, _, hfuel => absurd hfuel (Nat.not_lt_zero _)
  | fuel + 1, c, hc, hfuel => by
    unfold readSegments
    dsimp only
    split
    · exact .pure ⟨.nil (.refl c), .nil c, rfl⟩
    · rename_i hdot
      obtain ⟨hkind, hstart⟩ := not_or.1 hdot
      split
      · exact .throw (token_cuts hc)
      · rename_i hname
        obtain ⟨hname, hnameStart⟩ := not_or.1 hname
        -- both tokens start where the one before them ends
        have hbefore : (next c).before = c := (reaches_before c).eq_of_pos (not_not.1 hstart)
        have hnext : (next (next c).after).before = (next c).after :=
          (reaches_before _).eq_of_pos (not_not.1 hnameStart)
        have hpoint := passes_token c
        rw [hbefore, token_text (not_not.1 hkind) rfl] at hpoint
        have hsegment := passes_token (next c).after
        have hafter := hc.reaches (reaches_after c)
        have hlt := next_length_lt (not_not.1 hkind) (by decide)
        have hle := (reaches_after (next c).after).length_le
        refine (readSegments_yields (hafter.reaches (reaches_after _)) (by omega)).bind fun names d h => ?_
        refine .pure ⟨h.cons ((reaches_after c).trans (reaches_before _)) hsegment rfl
          (hafter.reaches (reaches_before _)), ?_, ?_⟩
        · rw [dotted_cons]
          rw [hnext] at hsegment
          exact hpoint.trans (hsegment.trans h.passes)
        · rw [List.map_cons, Span.lastStop_cons]
          exact h.stop

/-- An expression that was read from a place on, with the place after it. -/
structure ExprAt (source : String) (c : Cursor) (e : Expr) (d : Cursor) : Prop where
  stands : ∃ b, c.Reaches b ∧ b.Covers e.span d
  spelled : e.Spelled source
  placed : e.Placed

namespace ExprAt

variable {e : Expr}

section

variable (h : ExprAt source c e d)
include h

theorem reaches : c.Reaches d := by
  obtain ⟨b, hb, hd⟩ := h.stands
  exact hb.trans hd.reaches

theorem length_lt : d.rest.length < c.rest.length := by
  obtain ⟨b, hb, hd⟩ := h.stands
  exact hd.length_lt.trans_le hb.length_le

theorem span_in : e.span.In c.pos d.pos := by
  obtain ⟨b, hb, hd⟩ := h.stands
  rw [hd.span]
  exact ⟨hb.pos_le, hd.reaches.pos_le, le_rfl⟩

theorem cuts : e.span.Cuts source := h.spelled.cuts source

theorem stop : e.span.stop = d.pos := by
  obtain ⟨b, -, hd⟩ := h.stands
  rw [hd.span]

end

theorem mono (h : ExprAt source b e d) (hb : c.Reaches b) : ExprAt source c e d := by
  obtain ⟨⟨a, ha, h⟩, hspelled, hplaced⟩ := h
  exact ⟨⟨a, hb.trans ha, h⟩, hspelled, hplaced⟩

end ExprAt

/-- A path from `a` on whose head is the token after `b`. -/
theorem readPath_yields {a : Cursor} {sigil : String} {head : PathHead} (ha : a.On source)
    (hab : a.Reaches (next b).before) (hfront : a.Passes (sigil ++ text) (next b).after)
    (hlt : (next b).after.rest.length < a.rest.length) (hhead : head.Spelled source)
    (hspan : head.span = (next b).token.span) :
    YieldsAt source (ExprAt source a) (readPath a.pos sigil head text (next b).after) := by
  unfold readPath
  rw [hspan]
  refine (readSegments_yields (ha.reaches hfront.reaches) (Nat.lt_succ_self _)).bind fun tail d h => ?_
  have hall := hfront.trans h.passes
  rw [← foldl_dotted] at hall
  have hstop : (tail.getLast?.map (·.span.stop)).getD (next b).token.span.stop = d.pos := by
    rw [← h.stop, show (next b).token.span.stop = (next b).after.pos from rfl]
    simp [lastStop, List.getLast?_map, Function.comp_def]
  dsimp only
  rw [hstop]
  refine .pure ⟨⟨a, .refl a, hall.reaches, h.passes.reaches.length_le.trans_lt hlt, rfl⟩,
    ⟨ha.slice hall, hhead, h.spelled⟩, ?_⟩
  rw [Expr.Placed, Path.Placed, Path.parts, hspan]
  exact ⟨hab.pos_le, (before_reaches_after b).pos_le, h.inOrder⟩

/-- A token that is an expression of its own. -/
theorem literalAt (hc : c.On source) (h : (next c).token.kind = kind) (hkind : kind ≠ .eof) (value : Literal) :
    ExprAt source c (.literal value (next c).token.span) (next c).after :=
  ⟨⟨_, reaches_before c, token_covers h hkind⟩, token_cuts hc, trivial⟩

theorem readWord_yields (hc : c.On source) (hkind : (next c).token.kind = .name) :
    YieldsAt source (ExprAt source c) (readWord (next c).token (next c).after) := by
  unfold readWord
  dsimp only
  split
  · exact .pure (literalAt hc hkind (by decide) _)
  · have hspelled := spelled_token hc
    have hfront := passes_token c
    rw [← String.empty_append (s := (next c).token.text)] at hfront
    refine (readPath_yields (hc.reaches (reaches_before c)) (.refl _) hfront
      (token_covers hkind (by decide)).length_lt ?_ ?_).imp fun _ _ h => h.mono (reaches_before c)
    · split
      · rename_i hthis
        rw [Name.Spelled, show (nameOf (next c).token).text = "this" from hthis] at hspelled
        exact hspelled
      · exact hspelled
    · split <;> rfl

/-- A name that touches the sign before it is passed over with the sign. -/
theorem passes_argument (hkind : (next c).token.kind = .atSign)
    (hstart : (next (next c).after).token.span.start = (next c).token.span.stop) :
    (next c).before.Passes ("@" ++ (next (next c).after).token.text) (next (next c).after).after := by
  have hsign := passes_token c
  rw [token_text hkind rfl] at hsign
  have hbefore : (next (next c).after).before = (next c).after := (reaches_before _).eq_of_pos hstart
  have hfront := passes_token (next c).after
  rw [hbefore] at hfront
  exact hsign.trans hfront

theorem readArgument_yields (hc : c.On source) (hkind : (next c).token.kind = .atSign) :
    YieldsAt source (ExprAt source c) (readArgument (next c).token (next c).after) := by
  have hafter := hc.reaches (reaches_after c)
  unfold readArgument
  dsimp only
  split
  · exact .throw ((token_cuts hc).cover (token_cuts hafter))
  · rename_i hname
    obtain ⟨hname, hstart⟩ := not_or.1 hname
    have hlt := (reaches_after (next c).after).length_le.trans_lt (token_covers hkind (by decide)).length_lt
    have hhead : (PathHead.arg (nameOf (next (next c).after).token)).Spelled source := spelled_token hafter
    exact (readPath_yields (hc.reaches (reaches_before c)) ((before_reaches_after c).trans (reaches_before _))
      (passes_argument hkind (not_not.1 hstart)) hlt hhead rfl).imp fun _ _ h => h.mono (reaches_before c)

/-! ## Arguments -/

theorem readParamNames_yields : ∀ {fuel : Nat} {c : Cursor}, c.On source → c.rest.length < fuel →
    YieldsAt source (fun names d => c.Reaches d ∧ NamesAt source c names d) (readParamNames fuel c)
  | 0, _, _, hfuel => absurd hfuel (Nat.not_lt_zero _)
  | fuel + 1, c, hc, hfuel => by
    unfold readParamNames
    dsimp only
    split
    · rename_i hkind
      have hlt := next_length_lt hkind (by decide)
      refine (readParamNames_yields (hc.reaches (reaches_after c)) (by omega)).bind fun names d h => ?_
      exact .pure ⟨(reaches_after c).trans h.1,
        h.2.cons (reaches_before c) (passes_token c) rfl (hc.reaches (reaches_before c))⟩
    · exact .pure ⟨reaches_after c, .nil (reaches_after c)⟩
    · exact .throw (unexpected_cuts hc _)

theorem readParams_yields (hc : c.On source) :
    YieldsAt source (fun names d => c.Reaches d ∧ NamesAt source c names d) (readParams c) := by
  unfold readParams
  have hbar := (reaches_after c).trans (reaches_after (next c).after)
  refine (readParamNames_yields (hc.reaches hbar) (Nat.lt_succ_of_le hbar.length_le)).bind fun names d h => ?_
  dsimp only
  split
  · exact .throw (token_cuts hc)
  · exact .pure ⟨hbar.trans h.1, h.2.mono hbar⟩

/-- Arguments that were read from a place on, with the place after them. -/
structure ArgumentsAt (source : String) (c : Cursor) (a : Arguments) (d : Cursor) : Prop where
  reaches : c.Reaches d
  parts : InOrder c.pos (a.params.map (·.span) ++ (a.pairs.map (·.span) ++ a.blockParams.map (·.span))) d.pos
  params : allSpelled source a.params
  paramsPlaced : allPlaced a.params
  pairs : pairsSpelled source a.pairs
  pairsPlaced : pairsPlaced a.pairs
  blockParams : ∀ n ∈ a.blockParams, n.Spelled source

theorem ArgumentsAt.names {names : List Name} (hreach : c.Reaches d) (h : NamesAt source c names d) :
    ArgumentsAt source c ⟨[], [], names⟩ d :=
  ⟨hreach, h.inOrder, trivial, trivial, trivial, trivial, h.spelled⟩

/-- A reader of expressions, at places with fewer than `n` characters left. -/
def YieldsExpr (source : String) (n : Nat) (expr : Cursor → Read (Expr × Cursor)) : Prop :=
  ∀ {c : Cursor}, c.On source → c.rest.length < n → YieldsAt source (ExprAt source c) (expr c)

/-- The last named argument, if there is one, ends where the next argument is looked for, and only named ones and
block parameters follow it. -/
theorem readArguments_yields {expr : Cursor → Read (Expr × Cursor)} {n : Nat} (hexpr : YieldsExpr source n expr) :
    ∀ {fuel : Nat} {last : Option Nat} {c : Cursor}, c.On source → c.rest.length < fuel →
      c.rest.length < n → (∀ stop ∈ last, stop = c.pos) →
      YieldsAt source (fun args d => ArgumentsAt source c args d ∧ (last.isSome → args.params = []))
        (readArguments expr fuel last c)
  | 0, _, _, _, hfuel, _, _ => absurd hfuel (Nat.not_lt_zero _)
  | fuel + 1, last, c, hc, hfuel, hn, hlast => by
    unfold readArguments
    dsimp only
    split
    case h_6 =>
      have hsecond := (reaches_after c).trans (reaches_after (next c).after)
      split
      · rename_i hpair
        have hlt := next_length_lt hpair.1 (by decide)
        have hle := (reaches_after (next c).after).length_le
        refine (hexpr (hc.reaches hsecond) (by omega)).bind fun value d hvalue => ?_
        have hreach := hsecond.trans hvalue.reaches
        have hshort := hvalue.length_lt
        have hcuts := (token_cuts hc).cover hvalue.cuts
        obtain ⟨hcover, hparts⟩ :=
          (token_in c).cover (hvalue.span_in.mono (reaches_after (next c).after).pos_le le_rfl)
        -- the value ends the pair
        have hstop : ((next c).token.span.cover value.span).stop = d.pos := by
          have hle := ((reaches_after (next c).after).trans hvalue.reaches).pos_le
          exact (max_eq_right (hle.trans_eq hvalue.stop.symm)).trans hvalue.stop
        refine (readArguments_yields hexpr (hc.reaches hreach) (by omega) (by omega)
          (fun stop hs => ?_)).bind fun args e h => ?_
        · rw [← Option.some.inj hs]
          exact hstop
        · obtain ⟨hargs, hnone⟩ := h
          have hrest := hargs.parts
          rw [hnone rfl] at hrest
          refine .pure ⟨⟨hreach.trans hargs.reaches, ?_, hargs.params, hargs.paramsPlaced,
            ⟨spelled_token hc, hvalue.spelled, hcuts, hargs.pairs⟩, ⟨hparts, hvalue.placed, hargs.pairsPlaced⟩,
            hargs.blockParams⟩, fun _ => hnone rfl⟩
          dsimp only
          rw [hnone rfl]
          exact ⟨hcover.lower, hcover.ordered, hrest.mono hcover.upper le_rfl⟩
      · split
        · exact (readParams_yields hc).bind fun names d h => .pure ⟨.names h.1 h.2, fun _ => rfl⟩
        · split
          · rename_i stop
            rw [hlast stop rfl]
            exact .throw (hc.cuts (reaches_after c))
          · refine (hexpr hc hn).bind fun value d hv => ?_
            have hshort := hv.length_lt
            refine (readArguments_yields hexpr (hc.reaches hv.reaches) (by omega) (by omega)
              (by simp)).bind fun args e h => ?_
            obtain ⟨hargs, -⟩ := h
            have hspan := hv.span_in
            exact .pure ⟨⟨hv.reaches.trans hargs.reaches,
              ⟨hspan.lower, hspan.ordered, hargs.parts.mono hspan.upper le_rfl⟩, ⟨hv.spelled, hargs.params⟩,
              ⟨hv.placed, hargs.paramsPlaced⟩, hargs.pairs, hargs.pairsPlaced, hargs.blockParams⟩, by simp⟩
    all_goals exact .pure ⟨.names (.refl c) (.nil (.refl c)), fun _ => rfl⟩

/-! ## Invocations -/

/-- An invocation between two positions. -/
structure Invocation.Placed (i : Invocation) (lo hi : Nat) : Prop where
  callee : i.callee.Placed
  parts : InOrder lo (i.callee.span :: (i.args.params.map (·.span) ++
    (i.args.pairs.map (·.span) ++ i.args.blockParams.map (·.span)))) hi
  params : allPlaced i.args.params
  pairs : pairsPlaced i.args.pairs

theorem Invocation.Placed.mono {lo' hi' : Nat} (h : i.Placed lo hi) (hlo : lo' ≤ lo) (hhi : hi ≤ hi') :
    i.Placed lo' hi' :=
  ⟨h.callee, h.parts.mono hlo hhi, h.params, h.pairs⟩

/-- Where the named arguments start if there are none. -/
theorem lastStop_params (i : Invocation) :
    lastStop i.callee.span.stop (i.args.params.map (·.span)) =
      (i.args.params.getLast?.getD i.callee).span.stop := by
  cases h : i.args.params.getLast? <;> simp [lastStop, List.getLast?_map, h]

/-- The hash takes the place of the named arguments. -/
theorem Invocation.Placed.hash (h : i.Placed lo hi) :
    InOrder lo (i.callee.span :: (i.args.params.map (·.span) ++
      i.hash.span :: i.args.blockParams.map (·.span))) hi ∧
      InOrder i.hash.span.start (i.hash.pairs.map (·.span)) i.hash.span.stop ∧
      pairsPlaced i.hash.pairs := by
  obtain ⟨h₁, h₂, hrest⟩ := h.parts
  obtain ⟨mid, hparams, hrest⟩ := hrest.split
  obtain ⟨mid', hpairs, hnames⟩ := hrest.split
  unfold Invocation.hash
  cases hhead : i.args.pairs.head? with
  | none =>
    have hnil : i.args.pairs = [] := List.head?_eq_none_iff.1 hhead
    rw [hnil] at hpairs
    obtain ⟨htight, hle⟩ := hparams.tight
    rw [lastStop_params] at htight hle
    refine ⟨⟨h₁, h₂, InOrder.append ?_ htight⟩, Nat.le_refl _, trivial⟩
    exact ⟨le_rfl, le_rfl, hnames.mono (Nat.le_trans hle hpairs) le_rfl⟩
  | some first =>
    obtain ⟨last, hlast⟩ : ∃ last, i.args.pairs.getLast? = some last := by
      cases hl : i.args.pairs.getLast? with
      | none => simp [List.getLast?_eq_none_iff.1 hl] at hhead
      | some last => exact ⟨last, rfl⟩
    have hfirst : (i.args.pairs.map (·.span)).head? = some first.span := by simp [hhead]
    have hend : (i.args.pairs.map (·.span)).getLast? = some last.span := by
      simp [List.getLast?_map, hlast]
    obtain ⟨hcover, hinside⟩ := hpairs.cover hfirst hend
    rw [hlast]
    refine ⟨⟨h₁, h₂, InOrder.append ?_ hparams⟩, hinside, h.pairs⟩
    exact ⟨hcover.lower, hcover.ordered, hnames.mono hcover.upper le_rfl⟩

/-- The parts of a call with what follows them. -/
theorem Invocation.Placed.parts_call (h : i.Placed lo hi) (span : Span) :
    InOrder lo ((i.call span).parts ++ i.args.blockParams.map (·.span)) hi := by
  simpa [Call.parts, Invocation.call] using h.hash.1

theorem Invocation.Placed.inner (h : i.Placed lo hi) (span : Span) : (i.call span).Inner :=
  ⟨h.hash.2.1, h.callee, h.params, h.hash.2.2⟩

theorem Invocation.Placed.call (h : i.Placed lo hi) {span : Span} (hlo : span.start ≤ lo) (hhi : hi ≤ span.stop) :
    (i.call span).Placed := by
  obtain ⟨mid, hparts, hnames⟩ := (h.parts_call span).split
  exact ⟨hparts.mono hlo (hnames.le.trans hhi), h.inner span⟩

/-- An invocation that is spelled as it is written. -/
structure Invocation.Spelled (source : String) (i : Invocation) : Prop where
  callee : i.callee.Spelled source
  params : allSpelled source i.args.params
  pairs : pairsSpelled source i.args.pairs
  blockParams : ∀ n ∈ i.args.blockParams, n.Spelled source

namespace Invocation.Spelled

theorem hash (h : i.Spelled source) : i.hash.span.Cuts source ∧ pairsSpelled source i.hash.pairs := by
  have hpairs := (pairsSpelled_iff source).1 h.pairs
  unfold Invocation.hash
  split
  · rename_i first last hfirst hlast
    refine ⟨Span.Cuts.cover ?_ ?_, h.pairs⟩
    · exact (hpairs first (List.mem_of_mem_head? hfirst)).2.2
    · exact (hpairs last (List.mem_of_getLast? hlast)).2.2
  · refine ⟨?_, trivial⟩
    cases hlast : i.args.params.getLast? with
    | none => exact (Expr.Spelled.cuts source h.callee).empty_stop
    | some e =>
      have he := (allSpelled_iff source).1 h.params e (List.mem_of_getLast? hlast)
      exact (Expr.Spelled.cuts source he).empty_stop

theorem call (h : i.Spelled source) {span : Span} (hspan : span.Cuts source) : (i.call span).Spelled source :=
  ⟨hspan, h.hash.1, h.callee, h.params, h.hash.2⟩

theorem plain (h : i.Spelled source) (span : Span) : Yields source (fun _ => True) (i.plain span) := by
  have hnames := h.blockParams
  unfold Invocation.plain
  split
  · exact .pure trivial
  · rename_i name names hsplit
    rw [hsplit] at hnames
    exact .throw ⟨_, hnames name List.mem_cons_self⟩

end Invocation.Spelled

/-- An invocation that was read from a place on, with the place after it. -/
structure InvocationAt (source : String) (c : Cursor) (i : Invocation) (d : Cursor) : Prop where
  reaches : c.Reaches d
  length_lt : d.rest.length < c.rest.length
  spelled : i.Spelled source
  placed : i.Placed c.pos d.pos

theorem readInvocation_yields {expr : Cursor → Read (Expr × Cursor)} {n : Nat} (hexpr : YieldsExpr source n expr)
    (hc : c.On source) (hn : c.rest.length < n) :
    YieldsAt source (InvocationAt source c) (readInvocation expr c) := by
  unfold readInvocation
  refine (hexpr hc hn).bind fun callee d hcallee => ?_
  have hlt := hcallee.length_lt
  refine (readArguments_yields hexpr (hc.reaches hcallee.reaches) (Nat.lt_succ_self _) (by omega)
    (by simp)).bind fun args e h => ?_
  obtain ⟨hargs, -⟩ := h
  have hspan := hcallee.span_in
  exact .pure ⟨hcallee.reaches.trans hargs.reaches, hargs.reaches.length_le.trans_lt hlt,
    ⟨hcallee.spelled, hargs.params, hargs.pairs, hargs.blockParams⟩, hcallee.placed,
    ⟨hspan.lower, hspan.ordered, hargs.parts.mono hspan.upper le_rfl⟩, hargs.paramsPlaced, hargs.pairsPlaced⟩

/-! ## Expressions -/

theorem readExprWith_yields : ∀ fuel : Nat, YieldsExpr source fuel (readExprWith fuel)
  | 0, _, _, hfuel => absurd hfuel (Nat.not_lt_zero _)
  | fuel + 1, c, hc, hfuel => by
    unfold readExprWith
    dsimp only
    have hafter := reaches_after c
    split
    · rename_i hkind
      have hlt := next_length_lt hkind (by decide)
      refine (readInvocation_yields (readExprWith_yields fuel) (hc.reaches hafter) (by omega)).bind
        fun i d hi => ?_
      have hd := hc.reaches (hafter.trans hi.reaches)
      refine .after (hi.spelled.plain _) fun _ _ => ?_
      refine (expect_yields hd .closeParen).bind fun close e he => ?_
      obtain ⟨hclose, rfl, rfl⟩ := he
      -- from the opening parenthesis to the closing one
      have hopen := before_reaches_after c
      have hinner := hi.reaches.trans (reaches_after d)
      have hspan : (next c).token.span.cover (next d).token.span =
          ⟨(next c).before.pos, (next d).after.pos⟩ :=
        congrArg₂ Span.mk (min_eq_left (hopen.trans (hi.reaches.trans (reaches_before d))).pos_le)
          (max_eq_right hinner.pos_le)
      rw [hspan]
      refine .pure ⟨⟨_, reaches_before c, hopen.trans hinner, ?_, rfl⟩, ?_, ?_⟩
      · exact hinner.length_le.trans_lt (token_covers hkind (by decide)).length_lt
      · exact (Expr.spelled_call source _).2
          (hi.spelled.call ((hc.reaches (reaches_before c)).cuts (hopen.trans hinner)))
      · exact (Expr.placed_call _).2 (hi.placed.call hopen.pos_le (reaches_after d).pos_le)
    · rename_i hkind
      exact .pure (literalAt hc hkind (by decide) _)
    · rename_i hkind
      exact .pure (literalAt hc hkind (by decide) _)
    · rename_i hkind
      exact readArgument_yields hc hkind
    · rename_i hkind
      exact readWord_yields hc hkind
    · exact .throw (unexpected_cuts hc _)

theorem readExpr_yields (hc : c.On source) : YieldsAt source (ExprAt source c) (readExpr c) :=
  readExprWith_yields _ hc (Nat.lt_succ_self _)

theorem readInvocationAt_yields (hc : c.On source) :
    YieldsAt source (InvocationAt source c) (readInvocationAt c) :=
  readInvocation_yields (fun hc _ => readExpr_yields hc) hc (Nat.lt_succ_self _)

end TypedTemplate.Template.Reader
