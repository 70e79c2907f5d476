/-
An emitter with a state. It keeps the code with its open frames, the blocks around the place where it writes,
the indentation, and the issues and directives found so far. Its steps change one of these each, and those that
go back (closing a frame, leaving a block, lowering the indentation) fail where there is nothing to go back
from. A step `Writes` a draft if from every state it succeeds, adds what the draft says for the bindings and the
indentation of that state, and leaves blocks, indentation and frames as they were; steps that write compose.
-/
import TypedTemplate.Proofs.Emission

namespace TypedTemplate

open Mapping (Tree Label Builder)
open Template (Name Statement)

/-! ## The state -/

/-- Why an emitter stops. -/
inductive EmitterFault where
  | emission (fault : EmissionFault)
  /-- The indentation was lowered where there is none. -/
  | dedentBelowZero
  deriving Repr, DecidableEq

/-- The state of an emitter. The options, the embedding and the place of the template in it stay as they are. -/
structure Emitter extends Emission where
  options : CompileOptions
  embedding : String
  content : Span
  depth : Nat := 0
  issues : List Issue := []
  directives : List Directive := []

/-- A step of an emitter. -/
abbrev Step := Emitter → Except EmitterFault Emitter

namespace Emitter

/-- How free names are understood where the emitter stands. -/
def bindings (e : Emitter) : Bindings where
  forms := e.options.forms
  globals := e.options.globals
  scope := e.scope

/-- An issue of the template as one of the embedding. -/
def located (e : Emitter) (i : IssueCause × Span) : Issue := ⟨i.1, e.options.file, i.2.shift e.content.start⟩

/-- A directive of the template as one of the embedding. -/
def directed (e : Emitter) (d : Draft.LocalDirective) : Directive where
  kind := d.kind
  file := e.options.file
  location := d.location.shift e.content.start
  area := (d.area.map (·.shift e.content.start)).getD (.ofText e.embedding)

/-- The state after a draft: its code, nodes, issues and directives come after those of the state. -/
def put (e : Emitter) (d : Draft) : Emitter :=
  { e with
    builder := e.builder.put (Draft.code d) (Draft.trees e.content.start e.builder.length d)
    issues := e.issues ++ (Draft.issues d).map e.located
    directives := e.directives ++ (Draft.directives d).map e.directed }

/-! ## Steps -/

def text (s : String) : Step := fun e => .ok { e with builder := e.builder.text s }

/-- Starts a line at the indentation. -/
def newline : Step := fun e => text ("\n" ++ String.join (List.replicate e.depth "  ")) e

def indent : Step := fun e => .ok { e with depth := e.depth + 1 }

def dedent : Step := fun e =>
  if e.depth = 0 then .error .dedentBelowZero else .ok { e with depth := e.depth - 1 }

/-- Enters a block that binds `params`. -/
def push (params : List Name) : Step := fun e => .ok { e with scope := e.scope.enter (params.map (·.text)) }

/-- Leaves the innermost block. -/
def pop : Step := fun e =>
  (e.scope.leave.mapError (.emission ∘ .scope)).map fun scope => { e with scope }

def issue (cause : IssueCause) (span : Span) : Step := fun e =>
  .ok { e with issues := e.issues ++ [e.located (cause, span)] }

/-- Runs `inside` in a frame for a span of the embedding. -/
def framed (label : Label) (span : Span) (keepEmpty : Bool) (inside : Step) : Step := fun e =>
  (inside { e with builder := e.builder.openAtEnd.2 }).bind fun e' =>
    ((e'.builder.closeAtEnd e.builder.openAtEnd.1 label span keepEmpty).mapError (.emission ∘ .builder)).map
      fun builder => { e' with builder }

/-- Runs `inside` in a frame for a construct of the template. -/
def node (kind : String) (span : Span) (inside : Step) : Step := fun e =>
  framed (.node kind) (span.shift e.content.start) false inside e

/-- Plays a draft for the bindings where the emitter stands. Expressions, attributes and comments are written
so: they have frames and find issues, and start no line and bind no name. -/
def write (draft : Bindings → Draft) : Step := fun e =>
  ((Draft.play e.content.start (draft e.bindings) e.toEmission).mapError .emission).map fun played =>
    { e with
      toEmission := played
      issues := e.issues ++ (Draft.issues (draft e.bindings)).map e.located
      directives := e.directives ++ (Draft.directives (draft e.bindings)).map e.directed }

/-- A step chosen by the bindings where the emitter stands. -/
def reading (step : Bindings → Step) : Step := fun e => step e.bindings e

/-- A step for each member of a list, one after another. -/
def each {α : Type} (step : α → Step) : List α → Step
  | [] => .ok
  | a :: as => step a >=> each step as

/-! ## What a draft adds -/

section

variable (e : Emitter)

@[simp] theorem put_nil : e.put [] = e := by
  simp [put, Draft.code, Draft.trees, Draft.issues, Draft.directives]

@[simp] theorem put_put (a b : Draft) : (e.put a).put b = e.put (a ++ b) := by
  have hlocated : (e.put a).located = e.located := rfl
  have hdirected : (e.put a).directed = e.directed := rfl
  have hlength : (e.put a).builder.length = e.builder.length + Draft.size a := by
    rw [Draft.size_eq]
    exact Builder.length_put _ _ _
  rw [put, hlocated, hdirected, hlength]
  simp only [put, Builder.put_put, Draft.code_append, Draft.trees_append, Draft.issues_append,
    Draft.directives_append, List.map_append, List.append_assoc]

theorem put_within (params : List Name) (d : Draft) : e.put (Draft.within params d) = e.put d := by
  simp [put, Draft.within, Draft.code, Draft.codeOf, Draft.trees, Draft.treesOf, Draft.issues, Draft.issuesOf,
    Draft.directives, Draft.directivesOf]

/-- The state after a draft in a frame of its own. -/
def putFramed (label : Label) (span : Span) (keepEmpty : Bool) (d : Draft) : Emitter :=
  { e.put d with
    builder := e.builder.put (Draft.code d)
      (if keepEmpty || !(Span.mk e.builder.length (e.builder.length + Text.size (Draft.code d))).isEmpty then
        [.mk label span ⟨e.builder.length, e.builder.length + Text.size (Draft.code d)⟩
          (Draft.trees e.content.start e.builder.length d)]
      else []) }

theorem put_node (kind : String) (span : Span) (d : Draft) :
    e.put (Draft.node kind span d) = e.putFramed (.node kind) (span.shift e.content.start) false d := by
  simp [put, putFramed, Draft.node, Draft.code, Draft.codeOf, Draft.trees, Draft.treesOf, Draft.issues,
    Draft.issuesOf, Draft.directives, Draft.directivesOf, Draft.size_eq]

/-- The state with one more step of indentation. -/
def indented : Emitter := { e with depth := e.depth + 1 }

/-- The state in a block that binds `params`. -/
def entered (params : List Name) : Emitter := { e with scope := e.scope.enter (params.map (·.text)) }

-- `(rfl)` makes these steps of a proof; as definitional ones the kernel would unfold whole states to check them.

@[simp] theorem bindings_put (d : Draft) : (e.put d).bindings = e.bindings := (rfl)

@[simp] theorem bindings_indented : e.indented.bindings = e.bindings := (rfl)

@[simp] theorem bindings_entered (params : List Name) : (e.entered params).bindings = e.bindings.enter params := (rfl)

@[simp] theorem depth_put (d : Draft) : (e.put d).depth = e.depth := (rfl)

@[simp] theorem depth_indented : e.indented.depth = e.depth + 1 := (rfl)

@[simp] theorem depth_entered (params : List Name) : (e.entered params).depth = e.depth := (rfl)

/-! ## What the steps do -/

@[simp] theorem then_eq (s s' : Step) : (s >=> s') e = s e >>= s' := (rfl)

@[simp] theorem ok_bind (s : Step) : (Except.ok e : Except EmitterFault Emitter) >>= s = s e := (rfl)

@[simp] theorem text_eq (s : String) : text s e = .ok (e.put [.text s]) := by
  simp [text, put, Draft.code, Draft.codeOf, Draft.trees, Draft.treesOf, Draft.issues, Draft.issuesOf,
    Draft.directives, Draft.directivesOf, Builder.text_eq_put]

@[simp] theorem newline_eq : newline e = .ok (e.put [Emit.line e.depth]) := text_eq e _

@[simp] theorem indent_eq : indent e = .ok e.indented := (rfl)

@[simp] theorem dedent_put (d : Draft) : dedent (e.indented.put d) = .ok (e.put d) := (rfl)

@[simp] theorem push_eq (params : List Name) : push params e = .ok (e.entered params) := (rfl)

@[simp] theorem pop_put (params : List Name) (d : Draft) :
    pop ((e.entered params).put d) = .ok (e.put (Draft.within params d)) := by
  rw [put_within]
  rfl

@[simp] theorem issue_eq (cause : IssueCause) (span : Span) : issue cause span e = .ok (e.put [.issue cause span]) := by
  simp [issue, put, Draft.code, Draft.codeOf, Draft.trees, Draft.treesOf, Draft.issues, Draft.issuesOf,
    Draft.directives, Draft.directivesOf]

@[simp] theorem write_eq (draft : Bindings → Draft) : write draft e = .ok (e.put (draft e.bindings)) := by
  rw [write, Draft.play_eq]
  rfl

end

/-! ## Steps that write -/

/-- From every state a step succeeds, and does no more than to add a draft that depends on the bindings and the
indentation. -/
def Writes (step : Step) (draft : Bindings → Nat → Draft) : Prop :=
  ∀ e : Emitter, step e = .ok (e.put (draft e.bindings e.depth))

variable {step step' : Step} {draft draft' : Bindings → Nat → Draft}

theorem Writes.then (h : Writes step draft) (h' : Writes step' draft') :
    Writes (step >=> step') fun b n => draft b n ++ draft' b n := fun e => by
  rw [then_eq, h, ok_bind, h', bindings_put, depth_put, put_put]

theorem Writes.each {α : Type} {step : α → Step} {draft : α → Bindings → Nat → Draft}
    (h : ∀ a, Writes (step a) (draft a)) (as : List α) :
    Writes (each step as) fun b n => as.flatMap fun a => draft a b n := by
  induction as with
  | nil =>
    intro e
    simp only [Emitter.each, List.flatMap_nil, put_nil]
  | cons a as ih =>
    simp only [Emitter.each, List.flatMap_cons]
    exact (h a).then ih

/-- What a step adds in a frame becomes a node. The frame opens where the code ends, so what is inside lies
there as it would without the frame. -/
theorem framed_eq {e : Emitter} {d : Draft}
    (h : step { e with builder := e.builder.openAtEnd.2 } = .ok ({ e with builder := e.builder.openAtEnd.2 }.put d))
    (label : Label) (span : Span) (keepEmpty : Bool) :
    framed label span keepEmpty step e = .ok (e.putFramed label span keepEmpty d) := by
  rw [framed, h]
  exact congrArg (Except.map _ ∘ Except.mapError _)
    (Builder.closeAtEnd_put e.builder (Draft.code d) (Draft.trees e.content.start e.builder.length d) label span
      keepEmpty)

theorem Writes.node (h : Writes step draft) (kind : String) (span : Span) :
    Writes (node kind span step) fun b n => Draft.node kind span (draft b n) := fun e => by
  rw [put_node]
  exact framed_eq (h _) _ _ _

end Emitter

end TypedTemplate
