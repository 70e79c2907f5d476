/-
Lines and columns of positions. The lines of a text start in order, so a position is on exactly one line:
the one that starts at or before it and is followed by none that does. Later positions have later lines,
or the same line and a later column. The line of a position is the number of line feeds before it, and its
column counts the bytes since the last of them.
-/
import TypedTemplate.LineIndex
import TypedTemplate.Proofs.Search
import TypedTemplate.Proofs.Text.Bytes
import TypedTemplate.Span
import Mathlib.Data.List.TakeWhile
import Mathlib.Order.Basic

namespace TypedTemplate

/-- A position comes before another one: on an earlier line, or on the same line in an earlier column. -/
def LineCol.Precedes (p q : LineCol) : Prop := p.line < q.line ∨ p.line = q.line ∧ p.col < q.col

instance (p q : LineCol) : Decidable (p.Precedes q) := inferInstanceAs (Decidable (_ ∨ _))

namespace LineCol

variable {p q : LineCol}

theorem Precedes.irrefl (p : LineCol) : ¬ p.Precedes p := by
  rintro (h | ⟨-, h⟩)
  · exact absurd h (Nat.lt_irrefl _)
  · exact absurd h (Nat.lt_irrefl _)

theorem Precedes.asymm (h : p.Precedes q) : ¬ q.Precedes p := by
  unfold Precedes at *
  omega

@[simp] theorem precedes_oneBased : p.oneBased.Precedes q.oneBased ↔ p.Precedes q := by
  unfold Precedes oneBased
  simp only [Nat.add_lt_add_iff_right, Nat.add_right_cancel_iff]

/-- Nothing comes before the first position. -/
theorem origin_precedes : (LineCol.mk 0 0).Precedes p ↔ p ≠ ⟨0, 0⟩ := by
  obtain ⟨line, col⟩ := p
  simp only [Precedes, ne_eq, mk.injEq]
  omega

end LineCol

namespace LineIndex

open Text

variable {ix : LineIndex} {offset : Nat} {p : LineCol} {text : String}

/-! ## Where lines start -/

theorem lt_startsAfter (cs : List Char) : ∀ pos, ∀ start ∈ startsAfter pos cs, pos < start := by
  induction cs with
  | nil => simp [startsAfter]
  | cons c cs ih =>
    intro pos start hstart
    have hsize := c.utf8Size_pos
    rw [startsAfter] at hstart
    split at hstart
    · rcases List.mem_cons.1 hstart with rfl | hstart
      · omega
      · have := ih _ start hstart
        omega
    · have := ih _ start hstart
      omega

theorem startsAfter_le (cs : List Char) : ∀ pos, ∀ start ∈ startsAfter pos cs, start ≤ pos + byteLength cs := by
  induction cs with
  | nil => simp [startsAfter]
  | cons c cs ih =>
    intro pos start hstart
    rw [startsAfter] at hstart
    rw [byteLength_cons]
    split at hstart
    · rcases List.mem_cons.1 hstart with rfl | hstart
      · omega
      · have := ih _ start hstart
        omega
    · have := ih _ start hstart
      omega

theorem startsAfter_increasing (cs : List Char) : ∀ pos, (startsAfter pos cs).Pairwise (· < ·) := by
  induction cs with
  | nil => simp [startsAfter]
  | cons c cs ih =>
    intro pos
    rw [startsAfter]
    split
    · exact List.pairwise_cons.2 ⟨lt_startsAfter cs _, ih _⟩
    · exact ih _

/-- The lines of a text start one after another. -/
theorem starts_increasing (text : String) : (ofText text).starts.Pairwise (· < ·) :=
  List.pairwise_cons.2 ⟨lt_startsAfter _ 0, startsAfter_increasing _ 0⟩

/-- The index of a text that fits is kept as it is. -/
theorem position_of_mem (h : Text.size text ≤ maxPosition) :
    ∀ n ∈ (ofText text).size :: (ofText text).starts, position n = n := by
  have hstarts : ∀ start ∈ (ofText text).starts, start ≤ Text.size text := by
    intro start hstart
    rcases List.mem_cons.1 hstart with rfl | hstart
    · exact Nat.zero_le _
    · simpa [size_eq_byteLength] using startsAfter_le _ 0 start hstart
  intro n hn
  rcases List.mem_cons.1 hn with rfl | hn
  · exact position_of_le h
  · exact position_of_le ((hstarts n hn).trans h)

/-! ## The line of a position -/

/-- A position is on a line that starts at or before it, if no later line does. -/
structure OnLine (ix : LineIndex) (offset : Nat) (p : LineCol) : Prop where
  start : ix.starts[p.line]? = some (offset - p.col)
  col_le : p.col ≤ offset
  last : ∀ line start, ix.starts[line]? = some start → start ≤ offset → line ≤ p.line

/-- A position has one line and column. -/
theorem OnLine.eq {q : LineCol} (hp : ix.OnLine offset p) (hq : ix.OnLine offset q) : p = q := by
  have hline : p.line = q.line :=
    Nat.le_antisymm (hq.last _ _ hp.start (Nat.sub_le _ _)) (hp.last _ _ hq.start (Nat.sub_le _ _))
  have hstart := hp.start
  rw [hline, hq.start, Option.some.injEq] at hstart
  have hcolp := hp.col_le
  have hcolq := hq.col_le
  have hcol : p.col = q.col := by omega
  cases p
  cases q
  simp_all

/-- Later positions come later by line and column. -/
theorem OnLine.precedes {a b : Nat} {q : LineCol} (hp : ix.OnLine a p) (hq : ix.OnLine b q) (h : a < b) :
    p.Precedes q := by
  have hline : p.line ≤ q.line := hq.last _ _ hp.start (by omega)
  rcases Nat.lt_or_eq_of_le hline with hlt | heq
  · exact .inl hlt
  · refine .inr ⟨heq, ?_⟩
    have hstart := hp.start
    rw [heq, hq.start, Option.some.injEq] at hstart
    have hcolp := hp.col_le
    have hcolq := hq.col_le
    omega

/-- Among lines that start in order, those that start at or before a position come first. -/
theorem lt_length_takeWhile_iff {starts : List Nat} (h : starts.Pairwise (· < ·)) (offset : Nat)
    {line start : Nat} (hline : starts[line]? = some start) :
    line < (starts.takeWhile (· ≤ offset)).length ↔ start ≤ offset := by
  induction starts generalizing line with
  | nil => cases hline
  | cons first rest ih =>
    obtain ⟨hfirst, hrest⟩ := List.pairwise_cons.1 h
    by_cases hle : first ≤ offset
    · rw [List.takeWhile_cons_of_pos (by simpa using hle), List.length_cons]
      cases line with
      | zero =>
        cases hline
        exact iff_of_true (Nat.succ_pos _) hle
      | succ line => rw [Nat.add_lt_add_iff_right, ih hrest hline]
    · rw [List.takeWhile_cons_of_neg (by simpa using hle)]
      refine iff_of_false (Nat.not_lt_zero _) fun hstart => hle ?_
      cases line with
      | zero =>
        cases hline
        exact hstart
      | succ line => exact (hfirst _ (List.mem_of_getElem? hline)).le.trans hstart

/-- Among lines that start in order, the search ends at the last line that
does not start after the position, whether it finds a line that starts there or not. -/
theorem lineOf_binarySearch {starts : List Nat} (h : starts.Pairwise (· < ·)) (offset : Nat) :
    lineOf (binarySearch offset starts) = (starts.takeWhile (· ≤ offset)).length - 1 := by
  have hcut (i x : Nat) (hx : starts.toArray[i]? = some x) :
      x ≤ offset ↔ i < (starts.takeWhile (· ≤ offset)).length :=
    (lt_length_takeWhile_iff h offset (by simpa using hx)).symm
  have hlast (i : Nat) (hi : starts.toArray[i]? = some offset) :
      i + 1 = (starts.takeWhile (· ≤ offset)).length := by
    have hin := (hcut i offset hi).1 le_rfl
    refine Nat.le_antisymm hin (Nat.le_of_not_lt fun hnext => ?_)
    -- a later line would start after the position and not after it
    have hlength := (List.takeWhile_sublist (· ≤ offset) (l := starts)).length_le
    have hget := List.getElem?_eq_getElem (l := starts) (i := i + 1) (by omega)
    have hle := (hcut (i + 1) _ (by rw [List.getElem?_toArray]; exact hget)).2 hnext
    obtain ⟨hlt, hi⟩ := List.getElem?_eq_some_iff.1 (show starts[i]? = some offset by simpa using hi)
    have := List.pairwise_iff_getElem.1 h i (i + 1) hlt (by omega) (Nat.lt_succ_self i)
    omega
  have hlength := (List.takeWhile_sublist (· ≤ offset) (l := starts)).length_le
  rw [binarySearch, searchFrom_eq hcut hlast (by simpa using hlength) (.inl rfl) (by simpa using hlength)]
  split <;> rfl

/-- A line starts no earlier than its number, as every line before it has a byte. -/
theorem le_start {starts : List Nat} (h : starts.Pairwise (· < ·)) {line start : Nat}
    (hline : starts[line]? = some start) : line ≤ start := by
  induction line generalizing start with
  | zero => exact Nat.zero_le _
  | succ line ih =>
    obtain ⟨hlt, rfl⟩ := List.getElem?_eq_some_iff.1 hline
    have hbefore := List.pairwise_iff_getElem.1 h line (line + 1) (Nat.lt_of_succ_lt hlt) hlt (Nat.lt_succ_self _)
    have hle := ih (List.getElem?_eq_getElem (Nat.lt_of_succ_lt hlt))
    omega

/-- The lines that start at or before a position are those up to its own. -/
theorem OnLine.length_takeWhile (h : (ofText text).OnLine offset p) :
    ((ofText text).starts.takeWhile (· ≤ offset)).length = p.line + 1 := by
  have hcut {line start : Nat} (hline : (ofText text).starts[line]? = some start) :=
    lt_length_takeWhile_iff (starts_increasing text) offset hline
  have hown := (hcut h.start).2 (Nat.sub_le _ _)
  refine Nat.le_antisymm (Nat.le_of_not_lt fun hlt => ?_) hown
  have hlength := (List.takeWhile_sublist (· ≤ offset) (l := (ofText text).starts)).length_le
  have hnext := List.getElem?_eq_getElem (Nat.lt_of_lt_of_le hlt hlength)
  exact absurd (h.last _ _ hnext ((hcut hnext).1 hlt)) (Nat.not_succ_le_self p.line)

theorem OnLine.line_le (h : (ofText text).OnLine offset p) : p.line ≤ offset :=
  (le_start (starts_increasing text) h.start).trans (Nat.sub_le _ _)

/-- The position before all characters is the first. -/
theorem onLine_zero (text : String) : (ofText text).OnLine 0 ⟨0, 0⟩ where
  start := rfl
  col_le := Nat.le_refl _
  last _ _ hline hle := (le_start (starts_increasing text) hline).trans hle

/-- A position of a text has a line and column. -/
theorem exists_lineCol? (h : offset ≤ Text.size text) :
    ∃ p, (ofText text).lineCol? offset = some p ∧ (ofText text).OnLine offset p := by
  have hincreasing := starts_increasing text
  have hcut {line start : Nat} (hline : (ofText text).starts[line]? = some start) :=
    lt_length_takeWhile_iff hincreasing offset hline
  have hfirst : 0 < ((ofText text).starts.takeWhile (· ≤ offset)).length := (hcut rfl).2 (Nat.zero_le offset)
  obtain ⟨line, hcount⟩ : ∃ line, ((ofText text).starts.takeWhile (· ≤ offset)).length = line + 1 :=
    Nat.exists_eq_succ_of_ne_zero (Nat.ne_of_gt hfirst)
  rw [hcount] at hcut
  have hlt : line < (ofText text).starts.length := by
    have := (List.takeWhile_sublist (· ≤ offset) (l := (ofText text).starts)).length_le
    omega
  have hstart := List.getElem?_eq_getElem hlt
  have hle := (hcut hstart).1 (Nat.lt_succ_self line)
  refine ⟨⟨line, offset - (ofText text).starts[line]⟩, ?_, ?_, Nat.sub_le _ _, ?_⟩
  · have hsize : ¬ (ofText text).size < offset := Nat.not_lt.2 h
    simp only [lineCol?, hsize, if_false, lineOf_binarySearch hincreasing, hcount, Nat.add_sub_cancel, hstart,
      Option.map_some]
  · rw [Nat.sub_sub_self hle]
    exact hstart
  · intro later next hnext hle
    exact Nat.le_of_lt_succ ((hcut hnext).2 hle)

/-- A position past the end of a text has none. -/
theorem lineCol?_past (h : Text.size text < offset) : (ofText text).lineCol? offset = none := if_pos h

theorem OnLine.offset? (h : ix.OnLine offset p) : ix.offset? p = some offset := by
  rw [LineIndex.offset?, h.start, Option.map_some, Nat.sub_add_cancel h.col_le]

/-! ## Counting line feeds -/

/-- The lines that start after some bytes are the line feeds among them. -/
theorem length_takeWhile_startsAfter (offset : Nat) (cs : List Char) : ∀ pos,
    ((startsAfter pos cs).takeWhile (· ≤ offset)).length =
      ((bytes cs).take (offset - pos)).count (byte '\n') := by
  induction cs with
  | nil => simp [startsAfter]
  | cons c cs ih =>
    intro pos
    rw [startsAfter, bytes_cons, List.take_append, List.count_append, String.length_utf8EncodeChar, Nat.sub_sub,
      ← ih]
    split
    · rename_i hc
      by_cases hle : pos + c.utf8Size ≤ offset
      · have hall : (String.utf8EncodeChar c).take (offset - pos) = [byte '\n'] := by
          rw [List.take_of_length_le (by rw [String.length_utf8EncodeChar]; omega), hc]
          rfl
        rw [List.takeWhile_cons_of_pos (by simpa using hle), List.length_cons, hall, List.count_singleton_self,
          Nat.add_comm]
      · have hnone : offset - pos = 0 := by
          rw [hc, show '\n'.utf8Size = 1 from rfl] at hle
          omega
        rw [List.takeWhile_cons_of_neg (by simpa using hle), ih, hnone, Nat.sub_eq_zero_of_le (by omega)]
        rfl
    · rename_i hc
      have hother : byte '\n' ∉ (String.utf8EncodeChar c).take (offset - pos) := fun hmem =>
        hc (eq_of_byte_mem rfl (List.mem_of_mem_take hmem))
      rw [List.count_eq_zero.2 hother, Nat.zero_add]

/-- The line of a position is the number of line feeds before it. -/
theorem OnLine.line_eq (h : (ofText text).OnLine offset p) :
    p.line = ((bytes text.toList).take offset).count (byte '\n') := by
  have hcount := h.length_takeWhile
  rw [ofText, List.takeWhile_cons_of_pos (by simp), List.length_cons, length_takeWhile_startsAfter] at hcount
  exact (Nat.succ.inj hcount).symm

/-- A line starts after a line feed. -/
theorem getElem?_of_mem_startsAfter (cs : List Char) : ∀ pos, ∀ start ∈ startsAfter pos cs,
    (bytes cs)[start - pos - 1]? = some (byte '\n') := by
  induction cs with
  | nil => simp [startsAfter]
  | cons c cs ih =>
    intro pos start hstart
    have hlater (h : start ∈ startsAfter (pos + c.utf8Size) cs) :
        (bytes (c :: cs))[start - pos - 1]? = some (byte '\n') := by
      have hlt := lt_startsAfter cs _ start h
      rw [bytes_cons, List.getElem?_append_right (by rw [String.length_utf8EncodeChar]; omega),
        String.length_utf8EncodeChar, ← ih _ start h]
      congr 1
      omega
    rw [startsAfter] at hstart
    split at hstart
    · rename_i hc
      rcases List.mem_cons.1 hstart with rfl | hstart
      · rw [hc, Nat.add_sub_cancel_left]
        rfl
      · exact hlater hstart
    · exact hlater hstart

/-- Before a position of a text, the last line feed is the one that its line starts after. -/
theorem OnLine.exists_start (h : (ofText text).OnLine offset p) :
    ∃ start ≤ offset, p.col = offset - start ∧
      (start = 0 ∨ (bytes text.toList)[start - 1]? = some (byte '\n')) ∧
      byte '\n' ∉ ((bytes text.toList).take offset).drop start := by
  have hcol := h.col_le
  have hstart : (ofText text).OnLine (offset - p.col) ⟨p.line, 0⟩ :=
    ⟨h.start, Nat.zero_le _, fun line start hline hle => h.last line start hline (by omega)⟩
  refine ⟨offset - p.col, Nat.sub_le _ _, by omega, ?_, ?_⟩
  · rcases List.mem_cons.1 (List.mem_of_getElem? h.start) with hzero | hmem
    · exact .inl hzero
    · exact .inr (getElem?_of_mem_startsAfter _ 0 _ hmem)
  · have hcount := h.line_eq
    rw [← List.take_append_drop (offset - p.col) ((bytes text.toList).take offset), List.take_take,
      Nat.min_eq_left (Nat.sub_le _ _), List.count_append, ← hstart.line_eq] at hcount
    exact List.count_eq_zero.1 (by simpa using hcount)

/-- Lines and columns. A position has none exactly past the end of the text. Otherwise the line is the number of line
feeds before the position, the column counts from the end of the last of them, the position of the two is the position
again, and later positions come later. All positions of the index fit if the text does. -/
theorem lineCol_counts (text : String) (offset : Nat) :
    ((ofText text).lineCol? offset = none ↔ Text.size text < offset) ∧
    (Text.size text ≤ maxPosition → ∀ n ∈ (ofText text).size :: (ofText text).starts, position n = n) ∧
    ∀ p, (ofText text).lineCol? offset = some p →
      p.line = ((bytes text.toList).take offset).count (byte '\n') ∧
      (∃ start ≤ offset, p.col = offset - start ∧
        (start = 0 ∨ (bytes text.toList)[start - 1]? = some (byte '\n')) ∧
        byte '\n' ∉ ((bytes text.toList).take offset).drop start) ∧
      (ofText text).offset? p = some offset ∧
      ∀ later q, offset < later → (ofText text).lineCol? later = some q → p.Precedes q := by
  have hon (o : Nat) (p : LineCol) (hp : (ofText text).lineCol? o = some p) : (ofText text).OnLine o p := by
    have hle : o ≤ Text.size text := Nat.le_of_not_lt fun hpast => by rw [lineCol?_past hpast] at hp; cases hp
    obtain ⟨q, hq, hon⟩ := exists_lineCol? hle
    rw [hp, Option.some.injEq] at hq
    exact hq ▸ hon
  refine ⟨⟨fun hnone => Nat.lt_of_not_le fun hle => ?_, lineCol?_past⟩, position_of_mem, fun p hp => ?_⟩
  · obtain ⟨p, hp, -⟩ := exists_lineCol? hle
    rw [hnone] at hp
    cases hp
  · have h := hon offset p hp
    exact ⟨h.line_eq, h.exists_start, h.offset?, fun later q hlt hq => h.precedes (hon later q hq) hlt⟩

/-- Positions in a line after two line feeds, and at the end of a text that ends with one. -/
example : (ofText "a\n\nbc\n").lineCol? 5 = some ⟨2, 2⟩ ∧ (ofText "a\n\nbc\n").lineCol? 6 = some ⟨3, 0⟩ := by cbv

end LineIndex

end TypedTemplate
