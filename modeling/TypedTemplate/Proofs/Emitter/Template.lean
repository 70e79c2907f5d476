/-
Templates compiled by an emitter: the code before the template, which raises the indentation, the template in a
frame of its own, and the code after it. What the emitter ends with is the compiled template, so the emitter is
one more account of how templates are compiled and not another compiler.
-/
import TypedTemplate.Proofs.Emitter.Statement

namespace TypedTemplate.Emitter

open Mapping (Tree Builder)

/-- What generated code starts with; all that follows is indented. -/
def header (o : CompileOptions) : Step :=
  text (Compiled.header { o with preamble := [] }) >=> indent >=>
    each (fun s => newline >=> text s) o.preamble

/-- What generated code ends with. -/
def footer (o : CompileOptions) : Step :=
  newline >=> text "__glintRef__; __glintDSL__;" >=> dedent >=> newline >=> text "\x7d)" >=> text o.after

/-- The statements of a template, or the one issue that it is none. -/
def body (source : String) : Step :=
  match Template.parse source with
  | .ok t => statements t.body
  | .error e => issue (.unreadable e.fault) e.span

/-- The result of an emitter that has come to the end. -/
def finish (e : Emitter) : Except EmitterFault Compiled :=
  ((e.builder.finishAtEnd .embedding (.ofText e.embedding)).mapError (.emission ∘ .builder)).map fun built =>
    ⟨built.1, built.2, e.issues, e.directives⟩

/-- Compiles a template step by step. -/
def compile (embedding : String) (content : Span) (o : CompileOptions) : Except EmitterFault Compiled :=
  (header o >=> framed .template content true (body ((content.slice embedding).getD "")) >=> footer o)
    { options := o, embedding, content } >>= finish

/-! ## The code around the template -/

/-- Texts one after another are one text. -/
theorem put_texts (e : Emitter) {d : Draft} (h : ∀ p ∈ d, ∃ s, p = .text s) : e.put d = e.put [.text (Draft.code d)] := by
  induction d generalizing e with
  | nil => simp [put, Draft.code, Draft.codeOf, Draft.trees, Draft.treesOf, Draft.issues, Draft.issuesOf,
      Draft.directives, Draft.directivesOf]
  | cons p d ih =>
    obtain ⟨⟨s, rfl⟩, hd⟩ := List.forall_mem_cons.1 h
    rw [← List.singleton_append, ← put_put, ih _ hd]
    simp [put, Draft.code, Draft.codeOf, Draft.trees, Draft.treesOf, Draft.issues, Draft.issuesOf,
      Draft.directives, Draft.directivesOf, Builder.put_put]

theorem code_preamble (lines : List String) :
    Draft.code (lines.flatMap fun s => [Emit.line 1, .text s]) = String.join (lines.map ("\n  " ++ ·)) := by
  induction lines with
  | nil => rfl
  | cons s lines ih =>
    rw [List.flatMap_cons, Draft.code_append, ih, List.map_cons, String.join_cons]
    simp [Draft.code, Draft.codeOf, Emit.line, String.append_assoc]

theorem header_eq (o : CompileOptions) {e : Emitter} (hdepth : e.depth = 0) :
    header o e = .ok (e.indented.put [.text (Compiled.header o)]) := by
  have hline : ∀ s : String, Writes (newline >=> text s) fun _ n => [Emit.line n, .text s] := fun s e => by simp
  have hcode : Draft.code (.text (Compiled.header { o with preamble := [] }) ::
      o.preamble.flatMap fun s => [Emit.line 1, .text s]) = Compiled.header o := by
    rw [Draft.code, code_preamble]
    simp [Draft.codeOf, Compiled.header, String.append_assoc]
  have htexts : ∀ p ∈ Piece.text (Compiled.header { o with preamble := [] }) ::
      o.preamble.flatMap fun s => [Emit.line 1, .text s], ∃ s, p = .text s := by
    simp only [List.forall_mem_cons, List.mem_flatMap]
    refine ⟨⟨_, rfl⟩, ?_⟩
    rintro p ⟨s, -, hp⟩
    simp only [List.mem_cons, List.not_mem_nil, or_false] at hp
    rcases hp with rfl | rfl
    · exact ⟨_, rfl⟩
    · exact ⟨_, rfl⟩
  have hindented : ∀ d, (e.put d).indented = e.indented.put d := fun _ => rfl
  rw [← hcode, ← put_texts _ htexts]
  simp [header, Writes.each hline o.preamble _, hdepth, hindented]

theorem footer_eq (o : CompileOptions) {e : Emitter} (hdepth : e.depth = 0) :
    footer o e.indented = .ok (e.put [.text (Compiled.footer o)]) := by
  have htexts : ∀ p ∈ [Emit.line 1, .text "__glintRef__; __glintDSL__;", Emit.line 0, .text "\x7d)",
      .text o.after], ∃ s, p = .text s := by
    simp only [List.forall_mem_cons]
    exact ⟨⟨_, rfl⟩, ⟨_, rfl⟩, ⟨_, rfl⟩, ⟨_, rfl⟩, ⟨_, rfl⟩, by simp⟩
  have hcode : Draft.code [Emit.line 1, .text "__glintRef__; __glintDSL__;", Emit.line 0, .text "\x7d)",
      .text o.after] = Compiled.footer o := by
    have hend : "\n  __glintRef__; __glintDSL__;\n\x7d)" = ("\n" ++ String.join (List.replicate 1 "  ")) ++
        ("__glintRef__; __glintDSL__;" ++ (("\n" ++ String.join (List.replicate 0 "  ")) ++ "\x7d)")) := by decide +kernel
    have hassoc : ∀ a b c d e : String, a ++ (b ++ (c ++ (d ++ (e ++ "")))) = a ++ (b ++ (c ++ d)) ++ e := by
      simp [String.append_assoc]
    simp only [Draft.code, Draft.codeOf, Emit.line]
    exact (hassoc _ _ _ _ _).trans (congrArg (· ++ o.after) hend.symm)
  rw [← hcode, ← put_texts _ htexts]
  simp [footer, hdepth]

/-! ## The template -/

theorem body_eq {e : Emitter} (o : CompileOptions) (hbindings : e.bindings = { forms := o.forms, globals := o.globals })
    (hdepth : e.depth = 1) (source : String) : body source e = .ok (e.put (Compiled.body o source)) := by
  unfold body Compiled.body
  cases Template.parse source with
  | ok t =>
    simp only
    rw [writes_statements t.body, hbindings, hdepth]
  | error err => exact issue_eq e _ _

/-- Compiling step by step never fails, and gives the compiled template. -/
theorem compile_eq (embedding : String) (content : Span) (o : CompileOptions) :
    compile embedding content o = .ok (Compiled.ofTemplate embedding content o) := by
  let start : Emitter := { options := o, embedding, content }
  have hheader : header o start = .ok ((start.put [.text (Compiled.header o)]).indented) := header_eq o rfl
  have hframed := framed_eq (e := (start.put [.text (Compiled.header o)]).indented)
    (body_eq o rfl rfl ((content.slice embedding).getD "")) .template content true
  have hfooter := footer_eq o (e := (start.put [.text (Compiled.header o)]).putFramed .template content true
    (Compiled.body o ((content.slice embedding).getD ""))) rfl
  have hrun : compile embedding content o = finish (((start.put [.text (Compiled.header o)]).putFramed .template
      content true (Compiled.body o ((content.slice embedding).getD ""))).put [.text (Compiled.footer o)]) := by
    unfold compile
    rw [then_eq, hheader, ok_bind, then_eq, hframed, ok_bind]
    exact (congrArg (· >>= finish) hfooter)
  rw [hrun, Compiled.ofTemplate]
  generalize Compiled.body o ((content.slice embedding).getD "") = d
  have hlocated : ∀ builder i, ({ builder, options := o, embedding, content } : Emitter).located i =
      ⟨i.1, o.file, i.2.shift content.start⟩ := fun _ _ => rfl
  have hdirected : ∀ builder d, ({ builder, options := o, embedding, content } : Emitter).directed d =
      { kind := d.kind
        file := o.file
        location := d.location.shift content.start
        area := (d.area.map (·.shift content.start)).getD ⟨0, Text.size embedding⟩ } := fun _ _ => rfl
  simp [start, finish, put, putFramed, Builder.put, Builder.finishAtEnd, Builder.finishAt, Builder.length, Draft.code, Draft.codeOf,
    Draft.trees, Draft.treesOf, Draft.issues, Draft.issuesOf, Draft.directives, Draft.directivesOf, Except.mapError,
    Except.map, Span.ofText, Draft.size_eq, hlocated, hdirected]
  rintro a -
  cases a.area <;> rfl

end TypedTemplate.Emitter
