/-
Mapping trees. A node pairs a span of the text an author wrote with the span of generated code it
stands for; children refine their parent. `narrowestGenerated` and `narrowestSource` find the
deepest node around a span on either side, and the two offset functions carry a position across a
node: position for position where both spans have one length, else to an end.
-/
import TypedTemplate.Search
import TypedTemplate.Span
import TypedTemplate.Text.Escaped

namespace TypedTemplate.Mapping

/-- What a node stands for. -/
inductive Label where
  /-- A whole embedding, its delimiters included. -/
  | embedding
  /-- The template without its delimiters. -/
  | template
  /-- Plain text: a mark without generated code. -/
  | text
  /-- One name. -/
  | name (name : String)
  /-- Any other construct, by its kind. -/
  | node (kind : String)
  deriving Repr, DecidableEq

namespace Label

def isName : Label → Bool
  | .name _ => true
  | _ => false

def render : Label → String
  | .embedding => "TemplateEmbedding"
  | .template => "Template"
  | .text => "TextContent"
  | .name n => "Identifier(" ++ n ++ ")"
  | .node kind => kind

end Label

/-- A node with the span an author wrote, the span generated for it, and its refinements. -/
inductive Tree where
  | mk (label : Label) (source generated : Span) (children : List Tree)
  deriving Repr

namespace Tree

def label : Tree → Label
  | mk l _ _ _ => l

def source : Tree → Span
  | mk _ s _ _ => s

def generated : Tree → Span
  | mk _ _ g _ => g

def children : Tree → List Tree
  | mk _ _ _ cs => cs

/-! ## The deepest node around a span -/

mutual

/-- The deepest node whose generated span includes `range`. Siblings come in the order of their
generated spans, so those that end before the range are passed over by halving, and of two that meet
at its start the earlier one is taken. -/
def narrowestGenerated (range : Span) : Tree → Option Tree
  | mk l s g cs =>
    if g.includes range then
      let first := partitionPoint (fun c => decide (c.generated.stop < range.start)) cs
      match narrowestGeneratedAmong range first cs with
      | some found => some found
      | none => some (mk l s g cs)
    else none

/-- The first answer of the siblings after the first `skip`, up to one that starts too late. -/
def narrowestGeneratedAmong (range : Span) (skip : Nat) : List Tree → Option Tree
  | [] => none
  | c :: cs =>
    match skip with
    | n + 1 => narrowestGeneratedAmong range n cs
    | 0 =>
      if range.start < c.generated.start then none
      else
        match narrowestGenerated range c with
        | some found => some found
        | none => narrowestGeneratedAmong range 0 cs

end

mutual

/-- The deepest node whose source span includes `range`; of several the first in emission order. -/
def narrowestSource (range : Span) : Tree → Option Tree
  | mk l s g cs =>
    if s.includes range then
      match narrowestSourceAmong range cs with
      | some found => some found
      | none => some (mk l s g cs)
    else none

def narrowestSourceAmong (range : Span) : List Tree → Option Tree
  | [] => none
  | c :: cs =>
    match narrowestSource range c with
    | some found => some found
    | none => narrowestSourceAmong range cs

end

/-! ## Positions across a node -/

/-- The position in `there` for a position in `here`: as far from the start when both spans have one
length, else the end for the end of a span with bytes, and the start for any other. -/
def carry (here there : Span) (offset : Nat) : Nat :=
  if here.length = there.length then there.start + (offset - here.start)
  else if offset = here.stop ∧ ¬ here.isEmpty then there.stop
  else there.start

def toGenerated (t : Tree) (offset : Nat) : Nat := carry t.source t.generated offset

def toSource (t : Tree) (offset : Nat) : Nat := carry t.generated t.source offset

/-! ## Walking and showing -/

mutual

/-- Every node with its parent, parents first. -/
def walk (parent : Option Tree) : Tree → List (Tree × Option Tree)
  | mk l s g cs => (mk l s g cs, parent) :: walkAll (mk l s g cs) cs

def walkAll (parent : Tree) : List Tree → List (Tree × Option Tree)
  | [] => []
  | c :: cs => walk (some parent) c ++ walkAll parent cs

end

mutual

/-- Every node with its depth, parents first. -/
def rows (depth : Nat) : Tree → List (Nat × Tree)
  | mk l s g cs => (depth, mk l s g cs) :: rowsAll (depth + 1) cs

def rowsAll (depth : Nat) : List Tree → List (Nat × Tree)
  | [] => []
  | c :: cs => rows depth c ++ rowsAll depth cs

end

/-- One node with the two texts it covers, indented by bars. -/
def renderNode (sourceText generatedText : String) (depth : Nat) (t : Tree) : String :=
  let bars := String.join (List.replicate depth "| ")
  let shown (s : Span) (text : String) := Text.escaped ((s.slice text).getD "<out of range>")
  bars ++ "Mapping: " ++ t.label.render ++ "\n" ++
  bars ++ " hbs(" ++ t.source.render ++ "): " ++ shown t.source sourceText ++ "\n" ++
  bars ++ " ts(" ++ t.generated.render ++ "):  " ++ shown t.generated generatedText ++ "\n" ++
  String.ofList (bars.toList.dropLast) ++ "\n"

/-- The tree with the texts that its spans cover. -/
def render (sourceText generatedText : String) (t : Tree) : String :=
  String.join ((t.rows 1).map fun (depth, node) => renderNode sourceText generatedText depth node)

end Tree

end TypedTemplate.Mapping
