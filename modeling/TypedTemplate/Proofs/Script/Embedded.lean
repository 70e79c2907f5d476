/-
What is relied on of a reader of scripts. How scripts are read is a matter of its own, and weaving takes any reader;
what is said of woven modules is said for every reader whose literals stand in the text that it reads, each from its
tag to the backtick that closes it, and whose classes are closed by a brace of that text.
-/
import TypedTemplate.Proofs.Text.Place
import TypedTemplate.Script.Embedded

namespace TypedTemplate

namespace Script

/-- A literal that stands in a text: its tag, then a backtick, then the one that closes it. -/
inductive Embedded.Lies (text : String) : Embedded → Prop
  | tagged {a b q p : Cursor} {x : Char} {tag : String} {interpolated : Bool} {inside : List Embedded} :
      a.On text → a.rest.head? = some x → x ≠ ' ' → a.Reaches b → b.Reaches q → q.rest.head? = some '`' →
      (q.advance 1).Reaches p → p.rest.head? = some '`' → (∀ e ∈ inside, e.Lies text) →
      Lies text (.tagged tag b.pos ⟨a.pos, (p.advance 1).pos⟩ interpolated inside)
  | staticValue {key : List Embedded} {value : Embedded} {decorators : List Embedded} :
      (∀ e ∈ key, e.Lies text) → value.Lies text → (∀ e ∈ decorators, e.Lies text) →
      Lies text (.staticValue key value decorators)

end Script

namespace ScriptReader

/-- What is relied on of a reader: its literals stand in the text. -/
def Faithful (reader : ScriptReader) : Prop :=
  ∀ {text outline}, reader text = some outline → ∀ e ∈ outline.embedded, e.Lies text

/-- What is relied on to put a companion into a class: a brace of the text closes it. -/
def ClosesClass (reader : ScriptReader) : Prop :=
  ∀ {text outline close}, reader text = some outline → outline.defaultClassClose? = some close →
    ∃ c : Cursor, c.On text ∧ c.rest.head? = some '}' ∧ c.pos = close

/-- A reader of scripts that have neither literals nor imports, by the parts that they have. -/
def withoutLiterals (items : String → List Script.Item) : ScriptReader := fun text => some ⟨[], items text⟩

theorem faithful_withoutLiterals (items : String → List Script.Item) : (withoutLiterals items).Faithful := by
  rintro text outline ⟨⟩ e he
  cases he

/-- A reader of scripts in which templates are all there is to tell of. -/
def plain : ScriptReader := withoutLiterals fun _ => []

theorem faithful_plain : plain.Faithful := faithful_withoutLiterals _

end ScriptReader

end TypedTemplate
