/-
Reading templates as a whole. Every text is read to an end, into a template that accounts for all of it or into an
error that is shown by a stretch of it. The one text of a template that is not written at its span is that of a
value in quotes, which is written between the quotes that its span takes in.
-/
import TypedTemplate.Proofs.Template.Walk.Statement

namespace TypedTemplate.Template

variable {source : String} {t : Template}

/-- A template that was read accounts for its text and is spelled there. -/
theorem accounted_of_parse (h : parse source = .ok t) : t.Accounted source := (parse_yields source).ok t h

theorem accounted_of_parse_chained :
    let source := "<A b=\"x\x7b\x7by.z\x7d\x7d\">\x7b\x7b#if @a\x7d\x7dé\x7b\x7belse if c\x7d\x7d\x7b\x7b/if\x7d\x7d</A> "
    ∃ t, parse source = .ok t ∧ t.body.length = 2 ∧ t.Accounted source := by
  intro source
  have hread : (parse source).toOption.any (fun t => t.body.length == 2) = true := by decide +kernel
  cases hparse : parse source with
  | error fault =>
    rw [hparse] at hread
    cases hread
  | ok t =>
    rw [hparse] at hread
    exact ⟨t, rfl, eq_of_beq hread, accounted_of_parse hparse⟩

/-- The span of a value in quotes is that of the quotes, and its text is not. -/
theorem quoted_text_inside_span :
    ∃ t e a run, parse "<br b=\"c\">" = .ok t ∧ t.body = [.element e] ∧ e.attributes = [a] ∧
      a.value = .text run ∧ run.chars = "c" ∧ run.span.slice "<br b=\"c\">" = some "\"c\"" ∧
      ¬run.Spelled "<br b=\"c\">" := by
  have hslice : (Span.mk 6 9).slice "<br b=\"c\">" = some "\"c\"" := by decide +kernel
  refine ⟨_, _, _, ⟨"c", ⟨6, 9⟩⟩, rfl, rfl, rfl, rfl, rfl, hslice, fun hspelled => ?_⟩
  rw [TextRun.Spelled, hslice] at hspelled
  revert hspelled
  decide

/-- Reading a text by byte positions ends, and it ends with what is read by characters: a template whose names and
texts are slices of the text, or an error that is shown by one. No slice leaves the text or cuts a character, and no
bound is spent. That holds from every place between characters on, also in a text that cannot be read as a whole,
while a slice from inside of a character is a fault. -/
theorem parse_total (source : String) : Walk.parse source = Walk.carry id (parse source) ∧
    (∀ place n p, Text.Boundary source p → Text.size source - p < n →
      (∃ ss q, Walk.statements source n place p = .ok (ss, q) ∧ p ≤ q ∧ Text.Boundary source q ∧
        statementsAccounted source ss) ∨
      ∃ e, Walk.statements source n place p = .error (.refused e) ∧ e.span.Cuts source) ∧
    (∀ place n p, ¬Text.Boundary source p → p < Text.size source →
      Walk.statements source (n + 1) place p = .error .slice) ∧
    ((∃ t, parse source = .ok t ∧ t.Accounted source) ∨
      ∃ e, parse source = .error e ∧ e.span.start ≤ e.span.stop ∧ e.span.stop ≤ Text.size source ∧
        Text.Boundary source e.span.start ∧ Text.Boundary source e.span.stop) := by
  refine ⟨Walk.parse_eq source, fun place n p hp hn => ?_, fun place n p => Walk.statements_inside, ?_⟩
  · obtain ⟨c, hc, rfl⟩ := Cursor.exists_on_of_boundary hp
    have hwalk := Walk.statements_eq place hc (Walk.length_lt_of_bytes hc hn) le_rfl
    have hbody := Reader.readStatements_yields _ place hc le_rfl
    cases hread : Reader.readStatements c.rest.length place c with
    | ok found =>
      have h := hbody.ok found hread
      exact .inl ⟨found.1, found.2.pos, hwalk.trans (congrArg _ hread), h.reaches.pos_le,
        (hc.reaches h.reaches).boundary, h.known.accounted⟩
    | error e => exact .inr ⟨e, hwalk.trans (congrArg _ hread), hbody.error e hread⟩
  · cases hparse : parse source with
    | ok t => exact .inl ⟨t, rfl, (parse_yields source).ok t hparse⟩
    | error e =>
      obtain ⟨hle, hstart, hstop⟩ := Span.cuts_iff.1 ((parse_yields source).error e hparse)
      exact .inr ⟨e, rfl, hle, Text.Boundary.le hstop, hstart, hstop⟩

end TypedTemplate.Template
