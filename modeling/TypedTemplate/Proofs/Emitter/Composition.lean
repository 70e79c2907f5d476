/-
Statements after statements. What an emitter adds for two lists of statements in a row is what it adds for the
first, and then what it adds for the second from any state with the same blocks around it and the same
indentation; only the nodes are moved to where their code comes to stand. Of what was written, bound or found
wrong before nothing is left but the place. The areas of directives are the exception, and no part of it: a
directive applies to the next node, which may be one of the second list.
-/
import TypedTemplate.Proofs.Emitter.Template

namespace TypedTemplate

open Mapping (Tree Builder)
open Template (Statement)

/-! ## Nodes in another place -/

namespace Mapping.Tree

mutual

/-- A node whose code starts `n` later. -/
def moved (n : Nat) : Tree → Tree
  | mk label source generated children => mk label source (generated.shift n) (movedAll n children)

def movedAll (n : Nat) : List Tree → List Tree
  | [] => []
  | t :: ts => moved n t :: movedAll n ts

end

theorem movedAll_append (n : Nat) (ts ts' : List Tree) : movedAll n (ts ++ ts') = movedAll n ts ++ movedAll n ts' := by
  induction ts with
  | nil => rfl
  | cons t ts ih => rw [List.cons_append, movedAll, movedAll, ih, List.cons_append]

end Mapping.Tree

namespace Draft

open Mapping.Tree (movedAll movedAll_append)

mutual

theorem treesOf_add (delta start n : Nat) : ∀ p : Piece, treesOf delta (start + n) p = movedAll n (treesOf delta start p)
  | .text _ => rfl
  | .mark label span keepEmpty inside => by
    have hspan : (⟨start + n, start + n + size inside⟩ : Span) = Span.shift ⟨start, start + size inside⟩ n := by
      rw [Span.shift, Nat.add_right_comm]
    have hempty : (Span.shift ⟨start, start + size inside⟩ n).isEmpty =
        (Span.mk start (start + size inside)).isEmpty := by
      rw [Bool.eq_iff_iff]
      simp only [Span.isEmpty, Span.shift, beq_iff_eq]
      omega
    rw [treesOf, treesOf, hspan, hempty, trees_add delta start n inside]
    split <;> rfl
  | .block _ inside => by rw [treesOf, treesOf, trees_add delta start n inside]
  | .issue _ _ => rfl
  | .directive _ _ _ => rfl

/-- The nodes of a draft that starts later are those of the draft, moved. -/
theorem trees_add (delta start n : Nat) : ∀ d : List Piece, trees delta (start + n) d = movedAll n (trees delta start d)
  | [] => rfl
  | p :: ps => by
    rw [trees, trees, movedAll_append, treesOf_add delta start n p, Nat.add_right_comm, trees_add delta _ n ps]

end

end Draft

/-! ## What a run adds -/

namespace Emitter

/-- What a run adds to a state. The generated spans of the nodes count from the start of the code, and the
directives are without the areas they apply to. -/
structure Gain where
  code : String
  nodes : List Tree
  issues : List Issue
  directives : List (DirectiveKind × Span)

/-- One gain after another. -/
instance : Append Gain where
  append g g' :=
    { code := g.code ++ g'.code
      nodes := g.nodes ++ Tree.movedAll (Text.size g.code) g'.nodes
      issues := g.issues ++ g'.issues
      directives := g.directives ++ g'.directives }

/-- A run from `e` to `e'` adds a gain, its nodes in the innermost frame and moved to where the code starts; and
it leaves the blocks around, the indentation and the number of open frames as it found them. -/
structure Gains (e : Emitter) (g : Gain) (e' : Emitter) : Prop where
  builder : e'.builder = e.builder.put g.code (Tree.movedAll e.builder.length g.nodes)
  issues : e'.issues = e.issues ++ g.issues
  directives : e'.directives.map (fun d => (d.kind, d.location)) =
    e.directives.map (fun d => (d.kind, d.location)) ++ g.directives
  scope : e'.scope = e.scope
  depth : e'.depth = e.depth
  frames : e'.builder.frames.length = e.builder.frames.length

/-- What a draft adds. -/
def gainOf (e : Emitter) (d : Draft) : Gain where
  code := Draft.code d
  nodes := Draft.trees e.content.start 0 d
  issues := (Draft.issues d).map e.located
  directives := (Draft.directives d).map fun d => (d.kind, d.location.shift e.content.start)

/-- What statements add. -/
def emitted (e : Emitter) (xs : List Statement) : Gain := e.gainOf (Emit.statements e.bindings e.depth xs)

/-- One template, one scope and one indentation. The code so far, its frames, the issues and the directives can
be any. -/
structure SameContext (e e' : Emitter) : Prop where
  options : e.options = e'.options
  embedding : e.embedding = e'.embedding
  content : e.content = e'.content
  scope : e.scope = e'.scope
  depth : e.depth = e'.depth

variable {e e' : Emitter}

theorem gains_put (e : Emitter) (d : Draft) : e.Gains (e.gainOf d) (e.put d) where
  builder := by
    rw [gainOf, ← Draft.trees_add, Nat.zero_add]
    rfl
  issues := rfl
  directives := by
    simp only [put, gainOf, List.map_append, List.map_map]
    rfl
  scope := rfl
  depth := rfl
  frames := by
    obtain ⟨⟨⟨output, root, frames⟩, scope⟩, options, embedding, content, depth, issues, directives⟩ := e
    cases frames <;> rfl

theorem gainOf_append (e : Emitter) (a b : Draft) : e.gainOf (a ++ b) = e.gainOf a ++ e.gainOf b := by
  have htrees : Draft.trees e.content.start 0 (a ++ b) = Draft.trees e.content.start 0 a ++
      Tree.movedAll (Text.size (Draft.code a)) (Draft.trees e.content.start 0 b) := by
    rw [Draft.trees_append, Draft.trees_add, Draft.size_eq]
  simp only [gainOf, htrees, Draft.code_append, Draft.issues_append, Draft.directives_append, List.map_append]
  rfl

/-! ## Statements after statements -/

/-- What a comment adds does not depend on the node after it. -/
theorem gainOf_comment (e : Emitter) (c : Template.Comment) (next next' : Option Span) :
    e.gainOf (Emit.comment c next) = e.gainOf (Emit.comment c next') := by
  unfold Emit.comment
  split <;> rfl

theorem gainOf_statement (e : Emitter) (b : Bindings) (n : Nat) (next next' : Option Span) (s : Statement) :
    e.gainOf (Emit.statement b n next s) = e.gainOf (Emit.statement b n next' s) := by
  cases s with
  | mustacheComment c =>
    simp only [Emit.statement]
    exact gainOf_comment e c next next'
  | text t => simp only [Emit.statement]
  | comment c => simp only [Emit.statement]
  | mustache m => simp only [Emit.statement]
  | block x =>
    obtain ⟨c, ⟨_, _, _, _⟩, inverse, close, span'⟩ := x
    simp only [Emit.statement]
  | element x =>
    cases x
    simp only [Emit.statement]

/-- Before other statements, statements are written with the same gain. -/
theorem exists_statements_append (e : Emitter) (b : Bindings) (n : Nat) (xs ys : List Statement) :
    ∃ d, Emit.statements b n (xs ++ ys) = d ++ Emit.statements b n ys ∧
      e.gainOf d = e.gainOf (Emit.statements b n xs) := by
  induction xs with
  | nil => exact ⟨[], rfl, rfl⟩
  | cons s xs ih =>
    obtain ⟨d, hd, hgain⟩ := ih
    refine ⟨Emit.statement b n (Emit.nextSignificant (xs ++ ys)) s ++ d, ?_, ?_⟩
    · rw [List.cons_append, Emit.statements, hd, List.append_assoc]
    · rw [Emit.statements, gainOf_append, gainOf_append, hgain,
        gainOf_statement e b n _ (Emit.nextSignificant xs) s]

theorem emitted_append (e : Emitter) (xs ys : List Statement) :
    e.emitted (xs ++ ys) = e.emitted xs ++ e.emitted ys := by
  obtain ⟨d, hd, hgain⟩ := exists_statements_append e e.bindings e.depth xs ys
  rw [emitted, hd, gainOf_append, hgain, emitted, emitted]

/-- What statements add depends on the context alone. -/
theorem SameContext.emitted_eq (h : SameContext e e') (xs : List Statement) : e.emitted xs = e'.emitted xs := by
  have hbindings : e.bindings = e'.bindings := by rw [bindings, bindings, h.options, h.scope]
  have hlocated : e.located = e'.located := by
    funext i
    rw [located, located, h.options, h.content]
  rw [emitted, emitted, hbindings, h.depth, gainOf, gainOf, hlocated, h.content]

/-- Emitting statements adds what they stand for where they are, and nothing else changes. -/
theorem gains_statements (e : Emitter) (xs : List Statement) :
    ∃ e', statements xs e = .ok e' ∧ e.Gains (e.emitted xs) e' :=
  ⟨_, writes_statements xs e, gains_put e _⟩

/-- Two lists of statements in a row add what the first adds, and then what the second adds from any state in the
same context. Each of the runs succeeds and leaves blocks, indentation and the number of frames as it found
them. -/
theorem statements_compose (xs ys : List Statement) (h : SameContext e' e) :
    ∃ first second both,
      statements xs e = .ok first ∧ e.Gains (e.emitted xs) first ∧
      statements ys e' = .ok second ∧ e'.Gains (e'.emitted ys) second ∧
      statements (xs ++ ys) e = .ok both ∧ e.Gains (e.emitted xs ++ e'.emitted ys) both := by
  obtain ⟨first, hfirst, gfirst⟩ := gains_statements e xs
  obtain ⟨second, hsecond, gsecond⟩ := gains_statements e' ys
  obtain ⟨both, hboth, gboth⟩ := gains_statements e (xs ++ ys)
  rw [emitted_append, ← h.emitted_eq ys] at gboth
  exact ⟨first, second, both, hfirst, gfirst, hsecond, gsecond, hboth, gboth⟩

/-- After a block that binds `if` and is wrong as a form, a mustache `if` is the form that it is on its own. -/
theorem statements_compose_after_block :
    ∃ e e' : Emitter, SameContext e' e ∧ ∃ first second : Template,
      Template.parse "\x7b\x7b#yield as |if|\x7d\x7d\x7b\x7b/yield\x7d\x7d" = .ok first ∧
      Template.parse "\x7b\x7bif\x7d\x7d" = .ok second ∧
      ∃ both, statements (first.body ++ second.body) e = .ok both ∧ both.scope = e.scope ∧
        both.issues.map (·.location) = [⟨0, 28⟩, ⟨0, 6⟩] := by
  let e : Emitter :=
    { options :=
        { file := "a.gts"
          typesModule := "m"
          forms := .ofEntries [("if", .ifElse), ("yield", .yield)] }
      embedding := ""
      content := ⟨0, 0⟩ }
  have hcontext : SameContext { e with builder := { output := "(", frames := [[]] } } e := ⟨rfl, rfl, rfl, rfl, rfl⟩
  refine ⟨e, _, hcontext, _, _, rfl, rfl, ?_⟩
  obtain ⟨-, -, both, -, -, -, -, hboth, hgains⟩ := statements_compose _ _ hcontext
  refine ⟨both, hboth, hgains.scope, ?_⟩
  rw [hgains.issues]
  decide +kernel

end Emitter

end TypedTemplate
