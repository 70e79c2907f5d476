/-
The places of a report. Where 32 bits hold the end of every diagnostic, a report has an entry for each of
them, with the offsets of its span. Lines and columns keep the order of the offsets as long as both lie in
the text or both past its end; an end past the text is shown on the first line, before any start in the text
but the first.
-/
import TypedTemplate.Proofs.LineIndex
import TypedTemplate.Report
import Mathlib.Data.List.Forall2

namespace TypedTemplate

/-! ## Diagnostics that were read -/

theorem Json.asWord?_le {j : Json} {n : Nat} (h : Json.asWord? j = some n) : n ≤ maxPosition := by
  unfold Json.asWord? at h
  split at h
  · split at h
    · dsimp only at h
      split at h
      · rename_i hlt
        cases h
        exact Nat.le_of_lt_succ hlt
      · cases h
    · cases h
  · cases h

namespace Diagnostic

/-- The start of a diagnostic that was read is a number of 32 bits. -/
theorem start_le_of_ofJson? {j : Json} {d : Diagnostic} (h : ofJson? j = some d) : d.start ≤ maxPosition := by
  unfold ofJson? at h
  simp only [Option.bind_eq_bind, Option.bind_eq_some_iff, Option.some.injEq] at h
  obtain ⟨fields, -, file, -, start, hstart, length, -, message, -, code, -, severity, -, related, -, rfl⟩ := h
  obtain ⟨word, -, hword⟩ := Option.bind_eq_some_iff.1 hstart
  exact Json.asWord?_le hword

theorem start_le_of_mapM {items : List Json} :
    ∀ {ds : List Diagnostic}, items.mapM ofJson? = some ds → ∀ d ∈ ds, d.start ≤ maxPosition := by
  induction items with
  | nil =>
    intro ds h
    cases h
    simp
  | cons item items ih =>
    intro ds h
    rw [List.mapM_cons] at h
    obtain ⟨d, hd, h⟩ := Option.bind_eq_some_iff.1 h
    obtain ⟨more, hmore, h⟩ := Option.bind_eq_some_iff.1 h
    cases h
    exact List.forall_mem_cons.2 ⟨start_le_of_ofJson? hd, ih hmore⟩

theorem start_le_of_parse? {json : String} {ds : List Diagnostic} (h : parse? json = some ds) :
    ∀ d ∈ ds, d.start ≤ maxPosition := by
  obtain ⟨j, -, h⟩ := Option.bind_eq_some_iff.1 h
  unfold ofJsonList? Json.asList? at h
  split at h
  · exact start_le_of_mapM h
  · cases h

end Diagnostic

namespace Report

open LineIndex (ofText)

/-! ## Places -/

/-- The line and column of a place. -/
def Place.lineCol (p : Place) : LineCol := ⟨p.line, p.column⟩

/-- An offset that no text has is on the first line. -/
theorem Place.lineCol_at_past {source : Option String} {offset : Nat}
    (h : ∀ text ∈ source, Text.size text < offset) :
    (Place.at (source.map ofText) offset).lineCol = (LineCol.mk 0 0).oneBased := by
  cases source with
  | none => rfl
  | some text => simp [Place.at, Place.lineCol, LineIndex.lineCol?_past (h text rfl)]

/-- An offset of a text is on its line. -/
theorem Place.exists_lineCol_at {text : String} {offset : Nat} (h : offset ≤ Text.size text) :
    ∃ p, (ofText text).OnLine offset p ∧ (Place.at (some (ofText text)) offset).lineCol = p.oneBased := by
  obtain ⟨p, hp, hon⟩ := LineIndex.exists_lineCol? h
  exact ⟨p, hon, by simp [Place.at, Place.lineCol, hp]⟩

/-- Below 4 GiB, 32 bits hold a place exactly if they hold its offset. -/
theorem Place.fits_at {source : Option String} (hsource : ∀ text ∈ source, Text.size text < maxPosition)
    (offset : Nat) : (Place.at (source.map ofText) offset).fits = decide (offset ≤ maxPosition) := by
  have hsmall : (Place.at (source.map ofText) offset).lineCol.line ≤ maxPosition ∧
      (Place.at (source.map ofText) offset).lineCol.col ≤ maxPosition := by
    by_cases hin : ∃ text ∈ source, offset ≤ Text.size text
    · obtain ⟨text, rfl, hle⟩ := hin
      obtain ⟨p, hon, hp⟩ := Place.exists_lineCol_at hle
      have hline := hon.line_le
      have hcol := hon.col_le
      have hsize := hsource text rfl
      rw [Option.map_some, hp]
      simp only [LineCol.oneBased]
      omega
    · rw [Place.lineCol_at_past fun text htext => Nat.lt_of_not_le fun hle => hin ⟨text, htext, hle⟩]
      decide
  have hline : (Place.at (source.map ofText) offset).line ≤ maxPosition := hsmall.1
  have hcolumn : (Place.at (source.map ofText) offset).column ≤ maxPosition := hsmall.2
  have hoffset : (Place.at (source.map ofText) offset).offset = offset := rfl
  rw [Place.fits, hoffset, decide_eq_true hline, decide_eq_true hcolumn, Bool.true_and, Bool.true_and]

/-- Of two offsets in order the later one is shown before the earlier one exactly if a text ends between them,
and the earlier one is not its start. -/
theorem Place.precedes_at_iff {source : Option String} {start stop : Nat} (h : start ≤ stop) :
    (Place.at (source.map ofText) stop).lineCol.Precedes (Place.at (source.map ofText) start).lineCol ↔
      ∃ text ∈ source, 0 < start ∧ start ≤ Text.size text ∧ Text.size text < stop := by
  by_cases hstart : ∃ text ∈ source, start ≤ Text.size text
  · obtain ⟨text, rfl, hstart⟩ := hstart
    obtain ⟨p, hp, hpat⟩ := Place.exists_lineCol_at hstart
    by_cases hstop : stop ≤ Text.size text
    · -- both lie in the text, where lines and columns keep the order
      obtain ⟨q, hq, hqat⟩ := Place.exists_lineCol_at hstop
      have hnot : ¬ q.Precedes p := by
        rcases Nat.eq_or_lt_of_le h with rfl | hlt
        · rw [hq.eq hp]
          exact LineCol.Precedes.irrefl p
        · exact (hp.precedes hq hlt).asymm
      rw [Option.map_some, hqat, hpat, LineCol.precedes_oneBased]
      refine iff_of_false hnot ?_
      rintro ⟨_, ⟨⟩, -, -, hlt⟩
      exact absurd hstop (Nat.not_le.2 hlt)
    · have hzero : p ≠ ⟨0, 0⟩ ↔ 0 < start := by
        rw [← not_iff_not, not_not, Nat.not_lt, Nat.le_zero]
        constructor
        · rintro rfl
          have hfirst := hp.start
          cases hfirst
          rfl
        · rintro rfl
          exact hp.eq (LineIndex.onLine_zero text)
      rw [Place.lineCol_at_past (by simpa using hstop), Option.map_some, hpat, LineCol.precedes_oneBased,
        LineCol.origin_precedes, hzero]
      constructor
      · intro hpos
        exact ⟨text, rfl, hpos, hstart, Nat.lt_of_not_le hstop⟩
      · rintro ⟨-, -, hpos, -⟩
        exact hpos
  · -- both are past the text, and are shown at the same place
    have hpast : ∀ text ∈ source, Text.size text < start := fun text htext =>
      Nat.lt_of_not_le fun hle => hstart ⟨text, htext, hle⟩
    rw [Place.lineCol_at_past hpast,
      Place.lineCol_at_past fun text htext => Nat.lt_of_lt_of_le (hpast text htext) h]
    refine iff_of_false (LineCol.Precedes.irrefl _) ?_
    rintro ⟨text, htext, -, hle, -⟩
    exact hstart ⟨text, htext, hle⟩

/-! ## Entries -/

/-- What the entry of a diagnostic shows. -/
structure Entry.Shows (source : Option String) (d : Diagnostic) (e : Entry) : Prop where
  start : e.start.offset = d.span.start
  stop : e.stop.offset = d.span.stop
  order : e.stop.lineCol.Precedes e.start.lineCol ↔
    ∃ text ∈ source, 0 < d.start ∧ d.start ≤ Text.size text ∧ Text.size text < d.span.stop

theorem Entry.shows_ofDiagnostic (source : Option String) {d : Diagnostic}
    (h : d.start + d.length ≤ maxPosition) : Shows source d (.ofDiagnostic (source.map ofText) d) := by
  have hstop : d.span.stop = d.start + d.length := Nat.min_eq_left h
  refine ⟨rfl, hstop.symm, ?_⟩
  rw [hstop]
  exact Place.precedes_at_iff (Nat.le_add_right _ _)

/-- A report is made of diagnostics that were read exactly if 32 bits hold the end of each of them. Each entry
then has the offsets of the diagnostic's span; its end is shown before its start exactly if the text ends
between them, and the start is not that of the text. -/
theorem entries_shown {json : String} {ds : List Diagnostic} {source : Option String}
    (hds : Diagnostic.parse? json = some ds) (hsource : ∀ text ∈ source, Text.size text < maxPosition) :
    ((entries? source ds).isSome ↔ ∀ d ∈ ds, d.start + d.length ≤ maxPosition) ∧
      ∀ es, entries? source ds = some es → List.Forall₂ (Entry.Shows source) ds es := by
  have hfits : (entries source ds).all (·.fits) = true ↔ ∀ d ∈ ds, d.start + d.length ≤ maxPosition := by
    simp only [entries, List.all_map, List.all_eq_true, Function.comp_apply, Entry.fits, Bool.and_eq_true]
    refine forall₂_congr fun d hd => ?_
    simp only [Entry.ofDiagnostic, Place.fits_at hsource, decide_eq_true_eq]
    exact and_iff_right (Diagnostic.start_le_of_parse? hds d hd)
  unfold entries?
  split
  · rename_i hall
    refine ⟨iff_of_true rfl (hfits.1 hall), ?_⟩
    rintro _ ⟨⟩
    rw [entries, List.forall₂_map_right_iff, List.forall₂_same]
    exact fun d hd => Entry.shows_ofDiagnostic source (hfits.1 hall d hd)
  · rename_i hnot
    exact ⟨iff_of_false (by simp) (mt hfits.2 hnot), by simp⟩

/-- A diagnostic at the last line of a text, and one that runs up to the last position. -/
theorem entries_shown_last_line :
    ∃ ds, Diagnostic.parse? "[[\"a.ts\", 2, 1, \"m\", 1], [\"a.ts\", 3, 4294967292, \"m\", 1]]" = some ds ∧
      Text.size "a\nb" < maxPosition ∧ (entries? (some "a\nb") ds).isSome := by
  have hds : Diagnostic.parse? "[[\"a.ts\", 2, 1, \"m\", 1], [\"a.ts\", 3, 4294967292, \"m\", 1]]" =
      some [⟨"a.ts", 2, 1, "m", 1, .error, []⟩, ⟨"a.ts", 3, 4294967292, "m", 1, .error, []⟩] := by
    decide +kernel
  have hsize : ∀ text ∈ some "a\nb", Text.size text < maxPosition := by
    rintro _ ⟨⟩
    decide
  exact ⟨_, hds, hsize _ rfl, (entries_shown hds hsize).1.2 (by decide)⟩

/-- An end past the text is shown on the first line, before a start on the second; and a diagnostic at the last
position that has a length stops the report. -/
theorem entry_ends_before_start :
    (∃ ds e, Diagnostic.parse? "[[\"a.ts\", 2, 5, \"m\", 1]]" = some ds ∧
      entries? (some "a\nb") ds = some [e] ∧ e.stop.lineCol.Precedes e.start.lineCol) ∧
    ∃ ds, Diagnostic.parse? "[[\"a.ts\", 4294967295, 1, \"m\", 1]]" = some ds ∧ entries? none ds = none := by
  refine ⟨⟨[⟨"a.ts", 2, 5, "m", 1, .error, []⟩],
    ⟨.error, "a.ts", ⟨2, 1, 2⟩, ⟨1, 1, 7⟩, "m", 1⟩, ?_, ?_, ?_⟩, [⟨"a.ts", 4294967295, 1, "m", 1, .error, []⟩], ?_, ?_⟩
  · decide +kernel
  · decide +kernel
  · decide
  · decide +kernel
  · decide +kernel

end Report

end TypedTemplate
