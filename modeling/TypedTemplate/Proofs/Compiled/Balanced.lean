/-
Compiled code is balanced. The header of generated code opens two brackets that its footer closes, and between
them stands the code of the template, which leaves alone what is open around it. So a module that code is
spliced into is bracketed as it was without it, whatever the template says and whether or not it can be read.
-/
import TypedTemplate.Compiled
import TypedTemplate.Proofs.Emit.Formed
import TypedTemplate.Proofs.Template.Reader.Statement

namespace TypedTemplate

namespace Code

/-- Brackets that are open further out stay open. -/
theorem Reads.frame {k l : List Opener} {cs : List Char} (h : Reads k l cs) (outer : List Opener) :
    Reads (k ++ outer) (l ++ outer) cs := by
  intro fs base next hfs
  obtain ⟨inner, rest, rfl, hinner, hrest⟩ := List.map_eq_append_iff.1 hfs
  obtain ⟨fs', hfs', hscan⟩ := h inner (rest ++ base) next hinner
  refine ⟨fs' ++ rest, by rw [List.map_append, hfs', hrest], ?_⟩
  rw [List.append_assoc, List.append_assoc]
  exact hscan

/-- A text that opens the brackets `l` for the brackets `k`, among others further out. -/
theorem reads_text (k l outer : List Opener) {text : String} (h : after k text = some l) :
    Reads (k ++ outer) (l ++ outer) text.toList :=
  (reads_of_after h).frame outer

theorem Reads.join {k l l' : List Opener} {s t : String} (hs : Reads k l s.toList) (ht : Reads l l' t.toList) :
    Reads k l' (s ++ t).toList := by
  rw [String.toList_append]
  exact hs.append ht

theorem Bracketed.balanced {cs : List Char} (h : Bracketed cs) : balanced cs = true := by
  have hscan := h [] []
  rw [List.append_nil] at hscan
  exact decide_eq_true hscan

end Code

namespace Compiled

open Code (Reads Bracketed reads_text)

variable {o : CompileOptions}

/-- The type that generated code takes its names from. -/
theorem bracketed_import {name : String} (h : ∀ c ∈ name.toList, Code.isQuotable c = true) :
    Bracketed ("typeof import(\"" ++ name ++ "\")").toList := by
  have hopen : Reads [] [.paren] "typeof import(".toList := Code.reads_of_after rfl
  have hname := (Code.bracketed_string h).reads [.paren]
  have hclose : Reads [.paren] [] ")".toList := Code.reads_of_after rfl
  have hsplit : ("typeof import(\"" ++ name ++ "\")").toList =
      "typeof import(".toList ++ ('"' :: name.toList ++ ['"']) ++ ")".toList := by simp
  rw [hsplit]
  exact ((hopen.append hname).append hclose).bracketed

/-- The header leaves the call and the body of its function open, and what the code before it opens. -/
theorem reads_header {k : List Code.Opener} (hbefore : Code.after [] o.before = some k)
    (hbacking : ∀ value ∈ o.backing, Code.after [] value = some [])
    (htypes : ∀ c ∈ o.typesModule.toList, Code.isQuotable c = true) (hpreamble : o.preamble = []) :
    Reads [] (.brace :: .paren :: k) (header o).toList := by
  have himport := bracketed_import htypes
  have hbefore : Reads [] k o.before.toList := Code.reads_of_after hbefore
  have hopen : Reads k (.paren :: k) "(\x7b\x7d as ".toList := reads_text [] [.paren] k rfl
  have hclose : Reads (.paren :: k) k ")".toList := reads_text [.paren] [] k rfl
  have hfunction : Reads (.paren :: k) (.paren :: .paren :: k) "function(__glintRef__, __glintDSL__: ".toList :=
    reads_text [.paren] [.paren, .paren] k rfl
  have hbody : Reads (.paren :: .paren :: k) (.brace :: .paren :: k) ") \x7b".toList :=
    reads_text [.paren, .paren] [.brace, .paren] k rfl
  -- the call, up to the function that it is given
  have hcall : ∃ call : String, Reads k (.paren :: k) call.toList ∧
      header o = o.before ++ "(\x7b\x7d as " ++ ("typeof import(\"" ++ o.typesModule ++ "\")") ++ ")" ++ call ++
        "function(__glintRef__, __glintDSL__: " ++ ("typeof import(\"" ++ o.typesModule ++ "\")") ++ ") \x7b" := by
    unfold header
    rw [hpreamble]
    cases hvalue : o.backing with
    | none =>
      refine ⟨".templateExpression(", reads_text [] [.paren] k rfl, ?_⟩
      simp [-String.reduceAppend, String.append_assoc]
    | some value =>
      have hlead : Reads k (.paren :: k) ".templateForBackingValue(".toList :=
        reads_text [] [.paren] k rfl
      have hinside := (Code.bracketed_text (hbacking value hvalue)).reads (.paren :: k)
      have hcomma : Reads (.paren :: k) (.paren :: k) ", ".toList := reads_text [.paren] [.paren] k rfl
      refine ⟨".templateForBackingValue(" ++ value ++ ", ", ?_, ?_⟩
      · exact (hlead.join hinside).join hcomma
      · simp [-String.reduceAppend, String.append_assoc]
  obtain ⟨call, hcall, hheader⟩ := hcall
  rw [hheader]
  exact ((((((hbefore.join hopen).join (himport.reads _)).join hclose).join hcall).join hfunction).join
    (himport.reads _)).join hbody

theorem bracketed_body (o : CompileOptions) (source : String) : Draft.Bracketed (body o source) := by
  unfold body
  split
  · rename_i t hparse
    exact (Emit.formed_statements _ 1 (Template.parse_neat hparse)).bracketed
  · exact Code.bracketed_nil

/-- Code that stands in brackets which its options close again. -/
theorem bracketed_code {k : List Code.Opener} (embedding : String) (content : Span)
    (hbefore : Code.after [] o.before = some k) (hafter : Code.after k o.after = some [])
    (hbacking : ∀ value ∈ o.backing, Code.after [] value = some [])
    (htypes : ∀ c ∈ o.typesModule.toList, Code.isQuotable c = true) (hpreamble : o.preamble = []) :
    Bracketed (ofTemplate embedding content o).code.toList := by
  show Bracketed (header o ++ Draft.code (body o ((content.slice embedding).getD "")) ++ footer o).toList
  have hheader := reads_header hbefore hbacking htypes hpreamble
  generalize (content.slice embedding).getD "" = source
  have hbody : Reads (.brace :: .paren :: k) (.brace :: .paren :: k) (Draft.code (body o source)).toList :=
    (bracketed_body o source).reads _
  have hfooter : Reads (.brace :: .paren :: k) k "\n  __glintRef__; __glintDSL__;\n\x7d)".toList :=
    reads_text [.brace, .paren] [] k rfl
  have hend : Reads k [] o.after.toList := Code.reads_of_after hafter
  exact Reads.bracketed ((hheader.join hbody).join (hfooter.join hend))

/-- What weaving puts before and after the code of a template: nothing, a block of a class, an export, or a
line of its own. -/
def enclosures : List (String × String) :=
  [("", ""), ("static \x7b ", " \x7d"), ("export default ", ";"), ("\n", ";")]

/-- The code of every template is balanced, in each place that weaving puts it in. -/
theorem balanced_code (embedding : String) (content : Span) (hplace : (o.before, o.after) ∈ enclosures)
    (hbacking : o.backing = none ∨ o.backing = some "this")
    (htypes : ∀ c ∈ o.typesModule.toList, c ≠ '"' ∧ c ≠ '\\' ∧ c ≠ '\n' ∧ c ≠ '\r') (hpreamble : o.preamble = []) :
    Code.balanced (ofTemplate embedding content o).code.toList = true := by
  have hopened : ∀ place ∈ enclosures, ∃ k, Code.after [] place.1 = some k ∧ Code.after k place.2 = some [] := by
    simp only [enclosures, List.forall_mem_cons]
    exact ⟨⟨[], rfl, rfl⟩, ⟨[.brace], rfl, rfl⟩, ⟨[], rfl, rfl⟩, ⟨[], rfl, rfl⟩, List.forall_mem_nil _⟩
  have hvalue : ∀ value ∈ o.backing, Code.after [] value = some [] := by
    intro value hvalue
    rcases hbacking with hnone | hthis
    · rw [hnone] at hvalue
      cases hvalue
    · rw [hthis] at hvalue
      cases hvalue
      rfl
  have hquotable : ∀ c ∈ o.typesModule.toList, Code.isQuotable c = true := by
    intro c hc
    obtain ⟨hquote, hbackslash, hfeed, hreturn⟩ := htypes c hc
    simp [Code.isQuotable, Code.isLineEnd, hquote, hbackslash, hfeed, hreturn]
  obtain ⟨k, hbefore, hafter⟩ := hopened _ hplace
  exact (bracketed_code embedding content hbefore hafter hvalue hquotable hpreamble).balanced

/-- A template of a class whose texts hold brackets, quotes and what would open an expression. -/
theorem balanced_code_in_class :
    let embedding := "<template><a b=\"`$\x7b(\x7b\x7bc \"(\" d=']'\x7d\x7d\">\x7b\x7be \"\n\\\"\"\x7d\x7d</a></template>"
    let o : CompileOptions :=
      { file := "a.gts", typesModule := "@types/dsl", backing := some "this", before := "static \x7b ", after := " \x7d" }
    ((o.before, o.after) ∈ enclosures ∧ (o.typesModule.toList.all Code.isQuotable) = true) ∧
      Code.balanced (ofTemplate embedding ⟨10, 52⟩ o).code.toList = true := by
  intro embedding o
  refine ⟨by decide, balanced_code embedding ⟨10, 52⟩ (by decide) (.inr rfl) ?_ rfl⟩
  have hchars : o.typesModule.toList.all (fun c => c != '"' && c != '\\' && c != '\n' && c != '\r') = true := by decide
  intro c hc
  have hc := List.all_eq_true.1 hchars c hc
  simp only [Bool.and_eq_true, bne_iff_ne, and_assoc] at hc
  exact hc

end Compiled

end TypedTemplate
