/-
Reading ahead is not noticed. A text has one row of tokens from each of its places on: they stand in order, each
over a stretch of the text, with nothing but separators around them, and the last is the end. Whatever is asked
of a stream, and in whatever order, what it hands out is that row from its start, and what it shows in advance is
what it hands out later. The buffer, the place up to which the text has been read and the position of the last
taken token are tied together by one invariant, which every request keeps.
-/
import TypedTemplate.Proofs.Template.Reader.Expr

namespace TypedTemplate.Template

open Text

/-! ## The tokens of a text -/

namespace Lexer

open Reader (reaches_before reaches_after passes_token token_covers)

variable {source : String} {c : Cursor}

/-- The end of a text as a token. -/
def endToken (source : String) : Token := ⟨.eof, .empty (size source), ""⟩

/-- A row of tokens from a position of a text on. Each takes a stretch of the text and follows the one before it
with only separators in between; the last one is the end, which only separators precede. -/
inductive Row (source : String) : Nat → List Token → Prop
  | last {pos : Nat} {gap : String} : slice source pos (size source) = some gap →
      gap.toList.all isSeparator = true → Row source pos [endToken source]
  | token {pos : Nat} {gap : String} {t : Token} {ts : List Token} :
      slice source pos t.span.start = some gap → gap.toList.all isSeparator = true → t.kind ≠ .eof →
      t.span.start < t.span.stop → t.span.slice source = some t.text → Row source t.span.stop ts →
      Row source pos (t :: ts)

theorem scanWord_ne_eof (cs : List Char) : (scanWord cs).1 ≠ .eof := by
  unfold scanWord
  split
  · rintro ⟨⟩
  · split <;> rintro ⟨⟩

theorem scan_eq_eof {cs : List Char} (h : (scan cs).1 = .eof) : cs = [] := by
  unfold scan at h
  split at h
  · rfl
  case h_13 =>
    split at h
    · dsimp only at h
      split at h <;> cases h
    · exact absurd h (scanWord_ne_eof _)
  all_goals cases h

theorem gap_before (hc : c.On source) :
    slice source c.pos (next c).before.pos = some (c.run isSeparator) ∧
      (c.run isSeparator).toList.all isSeparator = true := by
  refine ⟨hc.slice (c.passes_skipWhile isSeparator), ?_⟩
  rw [Cursor.run, String.toList_ofList, List.all_takeWhile]

/-- Where the end comes next, nothing follows. -/
theorem next_of_eof (hc : c.On source) (h : (next c).token.kind = .eof) :
    (next c).token = endToken source ∧ (next c).after.rest = [] := by
  have hrest : (next c).before.rest = [] := scan_eq_eof h
  have hpasses := passes_token c
  have htext : (next c).token.text = "" ∧ (next c).after.rest = [] := by
    have hsplit := hpasses.rest
    rw [hrest] at hsplit
    obtain ⟨htext, hafter⟩ := List.append_eq_nil_iff.1 hsplit.symm
    exact ⟨String.toList_eq_nil_iff.1 htext, hafter⟩
  have hpos : (next c).before.pos = size source := by
    have hstop := (hc.reaches (reaches_before c)).stop_eq
    rw [Cursor.stop_ofText, Cursor.stop, hrest] at hstop
    exact hstop
  have hafter : (next c).after.pos = size source := by
    rw [hpasses.pos, hpos, htext.1]
    rfl
  refine ⟨?_, htext.2⟩
  have hspan : (next c).token.span = .empty (size source) := by
    show Span.mk (next c).before.pos (next c).after.pos = _
    rw [hpos, hafter]
    rfl
  show (⟨(next c).token.kind, (next c).token.span, (next c).token.text⟩ : Token) = _
  rw [h, hspan, htext.1]
  rfl

/-- The tokens from a place on are a row. -/
theorem row_tokens {c : Cursor} (hc : c.On source) : Row source c.pos (tokens c) := by
  obtain ⟨hgap, hseparators⟩ := gap_before hc
  rw [tokens]
  split
  · rename_i h
    have heq := (next_of_eof hc h).1
    rw [heq]
    have hstart : (next c).before.pos = size source := congrArg (·.span.start) heq
    rw [hstart] at hgap
    exact .last hgap hseparators
  · rename_i h
    have hcovers := token_covers rfl h
    have hafter := hc.reaches (reaches_after c)
    exact .token hgap hseparators h (hcovers.reaches.pos_lt hcovers.length_lt)
      ((hc.reaches (reaches_before c)).slice (passes_token c)) (row_tokens hafter)
termination_by c.rest.length
decreasing_by exact next_after_lt c ‹_›

/-- Token by token through a text, and at its end over and over. -/
def placeAfter : Nat → Cursor → Cursor
  | 0, c => c
  | n + 1, c => placeAfter n (next c).after

theorem placeAfter_succ (n : Nat) (c : Cursor) : placeAfter (n + 1) c = (next (placeAfter n c)).after := by
  induction n generalizing c with
  | zero => rfl
  | succ n ih => exact ih (next c).after

theorem ahead_eq (n : Nat) (c : Cursor) : ahead n c = (next (placeAfter n c)).token := by
  induction n generalizing c with
  | zero => rfl
  | succ n ih => exact ih (next c).after

theorem stop_ahead (n : Nat) (c : Cursor) : (ahead n c).span.stop = (placeAfter (n + 1) c).pos := by
  rw [ahead_eq, placeAfter_succ]
  rfl

/-- The place after some tokens is where the last of them stops. -/
theorem pos_placeAfter (n : Nat) (c : Cursor) : (placeAfter n c).pos =
    (((List.range' 0 n).map (ahead · c)).getLast?.map (·.span.stop)).getD c.pos := by
  cases n with
  | zero => rfl
  | succ n => simp [List.range'_1_concat, stop_ahead]

theorem ahead_of_end {c : Cursor} (hc : c.On source) (hrest : c.rest = []) (n : Nat) :
    ahead n c = endToken source := by
  have hkind {c : Cursor} (hrest : c.rest = []) : (next c).token.kind = .eof := by
    simp [next, Cursor.skipWhile, hrest, scan]
  induction n generalizing c with
  | zero => exact (next_of_eof hc (hkind hrest)).1
  | succ n ih => exact ih (hc.reaches (reaches_after c)) (next_of_eof hc (hkind hrest)).2

/-- The token after `n` others is that of the row, or the end. -/
theorem getD_tokens {c : Cursor} (hc : c.On source) (n : Nat) :
    (tokens c).getD n (endToken source) = ahead n c := by
  rw [tokens]
  split
  · rename_i h
    obtain ⟨heq, hrest⟩ := next_of_eof hc h
    cases n with
    | zero => rfl
    | succ n => exact (ahead_of_end (hc.reaches (reaches_after c)) hrest n).symm
  · rename_i h
    cases n with
    | zero => rfl
    | succ n => exact getD_tokens (hc.reaches (reaches_after c)) n
termination_by c.rest.length
decreasing_by exact next_after_lt c ‹_›

end Lexer

/-! ## Requests -/

namespace TokenStream

open Lexer

/-- What can be asked of a stream. -/
inductive Request where
  | peek
  | peekNth (n : Nat)
  | eat (kind : TokenKind)
  | bump
  | next
  deriving Repr, DecidableEq

namespace Request

/-- Whether the answer, if there is one, is taken from the stream. -/
def takes : Request → Bool
  | .peek | .peekNth _ => false
  | .eat _ | .bump | .next => true

/-- The answer when these tokens come next; `ended` tells whether the end was handed out as the last item. -/
def answer (upcoming : Nat → Token) (ended : Bool) : Request → Option Token
  | .peek => some (upcoming 0)
  | .peekNth n => some (upcoming n)
  | .eat kind => if (upcoming 0).kind = kind then some (upcoming 0) else none
  | .bump => some (upcoming 0)
  | .next => if ended then none else some (upcoming 0)

end Request

/-- The answer of a stream, and the stream after it. -/
def serve (s : TokenStream) : Request → Option Token × TokenStream
  | .peek => (some s.peek, s.lookAhead 0)
  | .peekNth n => (some (s.peekNth n), s.lookAhead n)
  | .eat kind => s.eat kind
  | .bump => (some s.bump.1, s.bump.2)
  | .next => s.next?

/-- Requests one after another, each with its answer, and the stream after them. -/
def serveAll (s : TokenStream) : List Request → List (Request × Option Token) × TokenStream
  | [] => ([], s)
  | r :: rs => ((r, (s.serve r).1) :: (serveAll (s.serve r).2 rs).1, (serveAll (s.serve r).2 rs).2)

/-- The token that is taken with an answer, if one is. -/
def taken? (entry : Request × Option Token) : Option Token := if entry.1.takes then entry.2 else none

/-- The tokens that `n` calls of `bump` take. -/
def bumps (s : TokenStream) : Nat → List Token
  | 0 => []
  | n + 1 => s.bump.1 :: s.bump.2.bumps n

/-! ## The invariant -/

/-- A stream from `c` on of which `n` tokens were taken. Those after them wait in the buffer, and the text is read
on after the last of these. -/
structure Consistent (c : Cursor) (n : Nat) (s : TokenStream) : Prop where
  cursor : s.cursor = placeAfter (n + s.buffer.length) c
  buffer : s.buffer = (List.range' n s.buffer.length).map (ahead · c)
  position : s.position = (placeAfter n c).pos

namespace Consistent

variable {c : Cursor} {n : Nat} {s : TokenStream}

theorem start (c : Cursor) : Consistent c 0 (ofCursor c) := ⟨rfl, rfl, rfl⟩

variable (h : Consistent c n s)
include h

theorem readAhead : Consistent c n s.readAhead where
  cursor := by
    rw [length_readAhead, ← Nat.add_assoc, placeAfter_succ, ← h.cursor]
    rfl
  buffer := by
    rw [length_readAhead, List.range'_1_concat, List.map_append, ← h.buffer, List.map_singleton, ahead_eq,
      ← h.cursor]
    rfl
  position := h.position

omit h in
theorem lookAhead {s : TokenStream} (h : Consistent c n s) (k : Nat) : Consistent c n (s.lookAhead k) := by
  rw [TokenStream.lookAhead]
  split
  · exact h
  · exact h.readAhead.lookAhead k
termination_by k + 1 - s.buffer.length
decreasing_by
  rw [length_readAhead]
  omega

theorem peekNth (k : Nat) : s.peekNth k = ahead (n + k) c := by
  have hlt := s.lt_length_lookAhead k
  have hbuffer := congrArg (·[k]?) (h.lookAhead k).buffer
  simp only [List.getElem?_map, List.getElem?_range' hlt, List.getElem?_eq_getElem hlt] at hbuffer
  simpa [TokenStream.peekNth] using hbuffer

theorem peek : s.peek = ahead n c := h.peekNth 0

theorem bump : s.bump.1 = ahead n c ∧ Consistent c (n + 1) s.bump.2 := by
  have hcursor := h.cursor
  have hbuffer := h.buffer
  unfold TokenStream.bump
  split
  · rename_i t rest hcons
    rw [hcons, List.length_cons, List.range'_succ, List.map_cons] at hbuffer
    obtain ⟨rfl, hrest⟩ := List.cons.inj hbuffer
    refine ⟨rfl, ?_, hrest, stop_ahead n c⟩
    rw [hcursor, hcons, List.length_cons]
    congr 1
    dsimp only
    omega
  · rename_i hnil
    rw [hnil, List.length_nil, Nat.add_zero] at hcursor
    dsimp only
    rw [hcursor, ← ahead_eq]
    refine ⟨rfl, ?_, ?_, stop_ahead n c⟩
    · rw [hnil]
      exact (placeAfter_succ n c).symm
    · rw [hnil]
      rfl

/-- The flag that ends iteration is not part of the invariant. -/
theorem withEnded (ended : Bool) : Consistent c n { s with ended } :=
  ⟨h.cursor, h.buffer, h.position⟩

/-- One request: the answer is told by the tokens that come next, and what is taken is the next of them. -/
theorem serve (r : Request) :
    (s.serve r).1 = r.answer (fun k => ahead (n + k) c) s.ended ∧
      (taken? (r, (s.serve r).1) = none ∧ Consistent c n (s.serve r).2 ∨
        taken? (r, (s.serve r).1) = some (ahead n c) ∧ Consistent c (n + 1) (s.serve r).2) := by
  cases r with
  | peek => exact ⟨congrArg some h.peek, .inl ⟨rfl, h.lookAhead 0⟩⟩
  | peekNth k => exact ⟨congrArg some (h.peekNth k), .inl ⟨rfl, h.lookAhead k⟩⟩
  | bump =>
    obtain ⟨hbump, h'⟩ := h.bump
    exact ⟨congrArg some hbump, .inr ⟨congrArg some hbump, h'⟩⟩
  | eat kind =>
    obtain ⟨hbump, h'⟩ := (h.lookAhead 0).bump
    simp only [TokenStream.serve, TokenStream.eat, Request.answer, h.peek, Nat.add_zero]
    split
    · exact ⟨congrArg some hbump, .inr ⟨congrArg some hbump, h'⟩⟩
    · exact ⟨rfl, .inl ⟨rfl, h.lookAhead 0⟩⟩
  | next =>
    obtain ⟨hbump, h'⟩ := h.bump
    simp only [TokenStream.serve, TokenStream.next?, Request.answer, Nat.add_zero]
    split
    · exact ⟨rfl, .inl ⟨rfl, h⟩⟩
    · exact ⟨congrArg some hbump, .inr ⟨congrArg some hbump, h'.withEnded _⟩⟩

/-- Requests one after another: what is taken are the next tokens, as many as are taken. -/
theorem serveAll (rs : List Request) :
    let log := (s.serveAll rs).1
    log.filterMap taken? = (List.range' n (log.filterMap taken?).length).map (ahead · c) ∧
      Consistent c (n + (log.filterMap taken?).length) (s.serveAll rs).2 := by
  induction rs generalizing n s with
  | nil => exact ⟨rfl, h⟩
  | cons r rs ih =>
    rcases (h.serve r).2 with ⟨hnone, h'⟩ | ⟨hsome, h'⟩
    · simp only [TokenStream.serveAll, List.filterMap_cons_none hnone]
      exact ih h'
    · obtain ⟨htaken, hafter⟩ := ih h'
      simp only [TokenStream.serveAll, List.filterMap_cons_some hsome, List.length_cons]
      refine ⟨?_, ?_⟩
      · rw [List.range'_succ, List.map_cons, ← htaken]
      · rwa [Nat.add_assoc, Nat.add_comm 1] at hafter

theorem bumps (k : Nat) : s.bumps k = (List.range' n k).map (ahead · c) := by
  induction k generalizing n s with
  | zero => rfl
  | succ k ih =>
    obtain ⟨hbump, h'⟩ := h.bump
    rw [TokenStream.bumps, ih h', hbump, List.range'_succ, List.map_cons]

end Consistent

/-! ## The end of iteration -/

theorem ended_lookAhead (s : TokenStream) (n : Nat) : (s.lookAhead n).ended = s.ended := by
  rw [lookAhead]
  split
  · rfl
  · exact s.readAhead.ended_lookAhead n
termination_by n + 1 - s.buffer.length
decreasing_by
  rw [length_readAhead]
  omega

theorem ended_bump (s : TokenStream) : s.bump.2.ended = s.ended := by
  unfold bump
  split <;> rfl

/-- Whether the end was handed out as an item. -/
def isLast (entry : Request × Option Token) : Bool :=
  decide (entry.1 = .next) && entry.2.any (·.kind == .eof)

theorem ended_serve (s : TokenStream) (r : Request) :
    (s.serve r).2.ended = (s.ended || isLast (r, (s.serve r).1)) := by
  cases r with
  | peek => exact (s.ended_lookAhead 0).trans (Bool.or_false _).symm
  | peekNth n => exact (s.ended_lookAhead n).trans (Bool.or_false _).symm
  | bump => exact s.ended_bump.trans (Bool.or_false _).symm
  | eat kind =>
    refine Eq.trans ?_ (Bool.or_false _).symm
    simp only [serve, eat]
    split
    · exact (ended_bump _).trans (s.ended_lookAhead 0)
    · exact s.ended_lookAhead 0
  | next =>
    simp only [serve, next?, isLast]
    split
    · rename_i h
      rw [h]
      rfl
    · rename_i h
      rw [Bool.eq_false_iff.2 h]
      rfl

theorem ended_serveAll (s : TokenStream) (rs : List Request) :
    (s.serveAll rs).2.ended = (s.ended || (s.serveAll rs).1.any isLast) := by
  induction rs generalizing s with
  | nil => simp [serveAll]
  | cons r rs ih => simp only [serveAll, ih, ended_serve, List.any_cons, Bool.or_assoc]

/-! ## Any interleaving -/

/-- The first tokens of a row and the end again and again, by their numbers. -/
theorem map_getD_range_prefix (ts : List Token) (t : Token) (n : Nat) :
    (List.range' 0 n).map (ts.getD · t) <+: ts ++ List.replicate n t := by
  have heq : (List.range' 0 n).map (ts.getD · t) = (ts ++ List.replicate n t).take n := by
    refine List.ext_getElem (by simp) fun i hi hi' => ?_
    rw [List.length_map, List.length_range'] at hi
    simp only [List.getElem_map, List.getElem_range', Nat.zero_add, Nat.one_mul, List.getElem_take,
      List.getElem_append, List.getElem_replicate]
    split
    · rename_i hlt
      simp [hlt]
    · rename_i hge
      simp [List.getElem?_eq_none (Nat.le_of_not_lt hge)]
  rw [heq]
  exact List.take_prefix _ _

/-- Reading ahead is transparent. From every place of a text on there is one row of tokens, such that after any
requests to a stream that starts there: the tokens taken so far are the first of the row, followed by the end again
and again; the position is where the last of them ends; a token that is shown in advance is the one that as many
calls of `bump` take last; and whatever is asked next, the answer is told by the row and the number of tokens taken,
and for an item also by whether the end was handed out as one. -/
theorem lookahead_transparent {source : String} {offset : Nat} (h : Boundary source offset) :
    ∃ c T, Cursor.at? source offset = some c ∧ Row source offset T ∧ ∀ requests,
      let log := ((ofCursor c).serveAll requests).1
      let s := ((ofCursor c).serveAll requests).2
      let taken := log.filterMap taken?
      taken <+: T ++ List.replicate taken.length (endToken source) ∧
      s.position = (taken.getLast?.map (·.span.stop)).getD offset ∧
      (∀ n, (s.bumps (n + 1)).getLast? = some (s.peekNth n)) ∧
      ∀ r, (s.serve r).1 =
        r.answer (fun n => T.getD (taken.length + n) (endToken source)) (log.any isLast) := by
  obtain ⟨c, hat, hc, rfl⟩ := Cursor.exists_at? h
  refine ⟨c, tokens c, hat, row_tokens hc, fun requests => ?_⟩
  obtain ⟨htaken, hafter⟩ := (Consistent.start c).serveAll requests
  have hended := (ofCursor c).ended_serveAll requests
  intro log s taken
  rw [Nat.zero_add] at hafter
  refine ⟨?_, ?_, fun n => ?_, fun r => ?_⟩
  · have hrow := map_getD_range_prefix (tokens c) (endToken source) taken.length
    simp only [getD_tokens hc] at hrow
    rwa [← htaken] at hrow
  · have hposition := hafter.position.trans (pos_placeAfter _ c)
    rwa [← htaken] at hposition
  · rw [hafter.bumps, hafter.peekNth, List.range'_1_concat]
    simp
  · rw [(hafter.serve r).1, hended]
    simp only [getD_tokens hc]
    rfl

/-- After a character of two bytes, with a look past the end first and an `eat` that takes nothing. -/
theorem lookahead_transparent_after_character :
    let source := "é x=1"
    let requests := [Request.peekNth 4, .eat .number, .bump, .eat .equals, .next, .next, .next, .peek]
    Boundary source 2 ∧ ∃ c T, Cursor.at? source 2 = some c ∧ Row source 2 T ∧
      let taken := ((ofCursor c).serveAll requests).1.filterMap taken?
      let s := ((ofCursor c).serveAll requests).2
      taken <+: T ++ List.replicate taken.length (endToken source) ∧
      s.position = (taken.getLast?.map (·.span.stop)).getD 2 ∧
      (s.bumps 3).getLast? = some (s.peekNth 2) := by
  have h : Boundary "é x=1" 2 := ⟨['é'], " x=1".toList, by decide, by decide⟩
  obtain ⟨c, T, hat, hrow, hall⟩ := lookahead_transparent h
  obtain ⟨htaken, hposition, hbumps, -⟩ :=
    hall [.peekNth 4, .eat .number, .bump, .eat .equals, .next, .next, .next, .peek]
  exact ⟨h, c, T, hat, hrow, htaken, hposition, hbumps 2⟩

end TokenStream

end TypedTemplate.Template
