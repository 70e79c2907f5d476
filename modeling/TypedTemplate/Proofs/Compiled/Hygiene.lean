/-
Block parameters in generated code. Whatever its name, a parameter is written as an identifier that is no reserved
word. Two names that need no repair are written the same exactly if one of them is a reserved word and the other is
that word as it is escaped; no other two parameters that are in scope at one place meet in the code there.
-/
import TypedTemplate.Proofs.Compiled.Occurrences
import TypedTemplate.Proofs.Text.Bytes

namespace TypedTemplate

namespace Emit

/-- A name that is written as a reserved word is. -/
def Escapes (word name : String) : Prop := word ∈ reservedWords ∧ name = "__" ++ word

/-- No reserved word starts like an escaped name. -/
theorem escaped_not_reserved (name : String) : "__" ++ name ∉ reservedWords := by
  have hstart : reservedWords.all (fun w => w.toList.head? != some '_') = true := by decide
  intro hmem
  simpa using List.all_eq_true.1 hstart _ hmem

theorem isIdentifier_escaped {name : String} (h : name.toList.all isIdentifierChar = true) :
    isIdentifier ("__" ++ name) = true := by
  have hlist : ("__" ++ name).toList = '_' :: '_' :: name.toList := by simp
  rw [isIdentifier, hlist]
  exact h

/-- A name as it is written is an identifier, and no reserved word. -/
theorem isIdentifier_localText (name : String) :
    isIdentifier (localText name) = true ∧ localText name ∉ reservedWords := by
  have hall := (localName_all name).2
  unfold localText
  unfold localName at hall ⊢
  split
  · rename_i hreserved
    rw [if_pos hreserved] at hall
    exact ⟨isIdentifier_escaped hall, escaped_not_reserved name⟩
  · rename_i hreserved
    rw [if_neg hreserved] at hall
    split
    · rename_i hname
      rw [String.empty_append]
      exact ⟨hname, fun hmem => hreserved (List.contains_iff_mem.2 hmem)⟩
    · rename_i hname
      rw [if_neg hname] at hall
      exact ⟨isIdentifier_escaped hall, escaped_not_reserved _⟩

theorem localText_of_reserved {name : String} (h : name ∈ reservedWords) : localText name = "__" ++ name := by
  rw [localText, localName, if_pos (List.contains_iff_mem.2 h)]

theorem localText_of_isIdentifier {name : String} (h : isIdentifier name = true) (hreserved : name ∉ reservedWords) :
    localText name = name := by
  rw [localText, localName, if_neg (mt List.contains_iff_mem.1 hreserved), if_pos h, String.empty_append]

/-- Two identifiers are written the same exactly if one is the other, escaped. -/
theorem localText_eq_iff {a b : String} (ha : isIdentifier a = true) (hb : isIdentifier b = true) (hne : a ≠ b) :
    localText a = localText b ↔ Escapes a b ∨ Escapes b a := by
  have hescaped {w : String} (hw : w ∈ reservedWords) (v : String) : w ≠ "__" ++ v :=
    fun heq => escaped_not_reserved v (heq ▸ hw)
  by_cases ra : a ∈ reservedWords <;> by_cases rb : b ∈ reservedWords
  · rw [localText_of_reserved ra, localText_of_reserved rb]
    simp [Escapes, hescaped ra, hescaped rb, hne]
  · rw [localText_of_reserved ra, localText_of_isIdentifier hb rb]
    simp [Escapes, ra, rb, eq_comm]
  · rw [localText_of_isIdentifier ha ra, localText_of_reserved rb]
    simp [Escapes, ra, rb]
  · rw [localText_of_isIdentifier ha ra, localText_of_isIdentifier hb rb]
    simp [Escapes, ra, rb, hne]

end Emit

namespace Compiled

open Template

/-- Every name is written as an identifier that is no reserved word, and two names that are identifiers are written
the same exactly if one is a reserved word that the other escapes. In a template without issues, the blocks around a
path in the code declare the parameters that are in scope there, and these two are the only ones that can meet. -/
theorem local_names_hygienic (x y : String) :
    (Emit.isIdentifier (Emit.localText x) = true ∧ Emit.localText x ∉ Emit.reservedWords) ∧
    (Emit.isIdentifier x = true → Emit.isIdentifier y = true → x ≠ y →
      (Emit.localText x = Emit.localText y ↔ Emit.Escapes x y ∨ Emit.Escapes y x)) ∧
    ∀ {embedding source : String} {content : Span} {o : CompileOptions} {t : Template} {u : Occurrence},
      content.slice embedding = some source → parse source = .ok t → (ofTemplate embedding content o).issues = [] →
      u ∈ t.occurrences o.forms o.globals → u.place.written = true →
        ∃ before after blocks, Draft.code (body o source) = before ++ Draft.code u.draft ++ after ∧
          Code.openBlocks before.toList = some blocks ∧ Shows (blocks.map Code.declared) u.place.binders ∧
          ∀ d ∈ u.place.binders, d.binding = .declared → x ∈ d.names →
          ∀ e ∈ u.place.binders, e.binding = .declared → y ∈ e.names → x ≠ y →
            (Emit.localText x = Emit.localText y ↔ Emit.Escapes x y ∨ Emit.Escapes y x) := by
  refine ⟨Emit.isIdentifier_localText x, Emit.localText_eq_iff, ?_⟩
  intro embedding source content o t u hslice hparse hissues hu hwritten
  obtain ⟨before, blocks, hstands, hblocks, hshows⟩ := stands_of_mem hslice hparse hissues hu hwritten
  obtain ⟨after, hafter⟩ := hstands.code_eq
  refine ⟨before, after, blocks, hafter, hblocks, hshows, ?_⟩
  intro d hd hdeclared hx e he hdeclared' hy hne
  exact Emit.localText_eq_iff (hshows.isIdentifier hd hdeclared x hx) (hshows.isIdentifier he hdeclared' y hy) hne

/-- Two parameters of one block that are declared under one name, without an issue. -/
theorem escaped_word_meets_name :
    Emit.isIdentifier "class" = true ∧ Emit.isIdentifier "__class" = true ∧
    Emit.localText "class" = Emit.localText "__class" ∧
    (ofTemplate "\x7b\x7b#let 1 as |class __class|\x7d\x7d\x7b\x7bclass\x7d\x7d\x7b\x7b/let\x7d\x7d" ⟨0, 46⟩
      { file := "a.gts", typesModule := "t" }).issues.length = 0 ∧
    (Code.openBlocks ((Draft.code (body { file := "a.gts", typesModule := "t" }
      "\x7b\x7b#let 1 as |class __class|\x7d\x7d\x7b\x7bclass\x7d\x7d\x7b\x7b/let\x7d\x7d")).toList.take 216)).map
        (fun blocks => blocks.map Code.declared) = some [["__class", "__class"], ["__glintY__"]] := by
  refine ⟨by decide, by decide, by decide, by decide +kernel, ?_⟩
  -- Decoding this much code is far more work than reading its bytes.
  rw [Text.toList_eq_map_bytes (by decide +kernel)]
  decide +kernel

end Compiled

end TypedTemplate
