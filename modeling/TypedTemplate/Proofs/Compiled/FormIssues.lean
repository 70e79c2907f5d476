/-
The issues about special forms of a compiled template: each has its own call of the template for a cause, which
breaks a rule of its form.
-/
import TypedTemplate.Compiled
import TypedTemplate.Proofs.Emit.Notes

namespace TypedTemplate

open Draft Template
open scoped List

/-- An issue about a special form. -/
def Draft.Note.isForm : Note → Bool
  | .issue cause _ => cause.kind = .semanticForm
  | .directive _ => false

theorem Reports.filter {ns : List Note} {sites : List CallSite} (h : Reports ns sites) :
    Reports (ns.filter Note.isForm) sites := by
  rwa [List.filter_eq_self.2]
  intro n hn
  obtain ⟨_, -, cause, span, rfl, hcause⟩ := h.form n hn
  exact decide_eq_true hcause.kind

theorem Draft.filter_issues (d : Draft) : (issues d).filter (fun i => i.1.kind = .semanticForm) =
    ((notes d).filter Note.isForm).filterMap Note.issue? := by
  rw [issues_eq, List.filter_filterMap, List.filterMap_filter]
  refine List.filterMap_congr fun n _ => ?_
  cases n <;> simp [Note.isForm, Note.issue?, Option.filter]

theorem CallSite.causes_issues {causes : List CallSite} {ns : List Note} (h : List.Forall₂ Gives causes ns) :
    List.Forall₂ Causes causes (ns.filterMap Note.issue?) := by
  induction h with
  | nil => exact .nil
  | cons hgives _ ih =>
    obtain ⟨hcause⟩ := hgives
    exact .cons hcause ih

namespace Emit

theorem filter_flatMap_eq_nil {α : Type} {f : α → List Note} (h : ∀ a, (f a).filter Note.isForm = []) (as : List α) :
    (as.flatMap f).filter Note.isForm = [] := by
  rw [List.filter_flatMap]
  exact List.flatMap_eq_nil_iff.2 fun a _ => h a

theorem filter_comment (c : Comment) (next : Option Span) : (notes (comment c next)).filter Note.isForm = [] := by
  unfold comment
  split <;> rfl

theorem filter_tagComments (parts : List TagPart) : (notes (tagComments parts)).filter Note.isForm = [] := by
  induction parts with
  | nil => rfl
  | cons part rest ih =>
    cases part with
    | attr a => exact ih
    | modifier m => exact ih
    | comment c => rw [tagComments, notes_append, List.filter_append, filter_comment, ih, List.append_nil]

theorem filter_params (params : List Name) : (params.flatMap Note.ofParam).filter Note.isForm = [] := by
  refine filter_flatMap_eq_nil (fun p => ?_) params
  unfold Note.ofParam
  split <;> rfl

/-- An attribute of a component is an argument or one of the other attributes. -/
theorem arguments_subperm {α : Type} (f : Attribute → List α) (attributes : List Attribute) :
    (attributes.filter (·.isArgument)).flatMap f ++
      (attributes.filter fun a => !a.isSplattributes && !(true && a.isArgument)).flatMap f <+~
        attributes.flatMap f := by
  have hothers : attributes.filter (fun a => !a.isSplattributes && !(true && a.isArgument)) <+
      attributes.filter fun a => !a.isArgument :=
    List.monotone_filter_right _ fun a ha => by
      rw [Bool.true_and, Bool.and_eq_true] at ha
      exact ha.2
  have hperm := (List.filter_append_perm (·.isArgument) attributes).flatMap_right f
  rw [List.flatMap_append] at hperm
  exact (((List.Sublist.refl _).append (hothers.flatMap f)).subperm).trans hperm.subperm

theorem reports_opening (b : Bindings) (component : Bool) (parts : List TagPart) (attributes : List Attribute)
    (modifiers : List Call) :
    Reports ((Note.ofOpening b component parts attributes modifiers).filter Note.isForm)
      (CallSite.ofOpening b attributes modifiers) := by
  have hvalues (asArgument : Bool) (as : List Attribute) :
      Reports (as.flatMap fun a => notes (attrValue b asArgument a.value))
        (as.flatMap fun a => CallSite.ofValue b a.value) := .flatMap fun a _ => reports_attrValue b asArgument a.value
  have hmodifiers : Reports (modifiers.flatMap fun m => notes (modifier b m))
      (modifiers.flatMap (CallSite.ofCall b .modifier)) := .flatMap fun m _ => reports_modifier b m
  have hsplats (as : List Attribute) : (as.flatMap Note.ofSplattributes).filter Note.isForm = [] := by
    refine filter_flatMap_eq_nil (fun a => ?_) as
    unfold Note.ofSplattributes
    split <;> rfl
  simp only [Note.ofOpening, List.filter_append, filter_tagComments, hsplats, List.append_nil]
  cases component with
  | false =>
    exact ((hvalues false _).filter.append hmodifiers.filter).mono
      ((List.filter_sublist.flatMap _).append (.refl _)).subperm
  | true =>
    exact (((hvalues true _).filter.append (hvalues false _).filter).append hmodifiers.filter).mono
      ((arguments_subperm _ attributes).append (.refl _))

theorem filter_blockParams (b : Bindings) (callee : Expr) (params : List Name) :
    (Note.ofBlockParams b callee params).filter Note.isForm = [] := by
  unfold Note.ofBlockParams
  split
  · exact filter_params params
  · rfl

mutual

/-- The issues about forms in statements are caused by calls in the statements. -/
theorem reports_statements (b : Bindings) : ∀ ss : List Statement,
    Reports ((Note.ofStatements b ss).filter Note.isForm) (CallSite.ofStatements b ss)
  | [] => .nil _
  | s :: rest => by
    rw [Note.ofStatements, CallSite.ofStatements, List.filter_append]
    exact (reports_statement b _ s).append (reports_statements b rest)

theorem reports_statement (b : Bindings) (next : Option Span) : ∀ s : Statement,
    Reports ((Note.ofStatement b next s).filter Note.isForm) (CallSite.ofStatement b s)
  | .text _ => .nil _
  | .comment _ => .nil _
  | .mustacheComment c => by
    rw [Note.ofStatement, filter_comment]
    exact .nil _
  | .mustache m => by
    rw [Note.ofStatement, CallSite.ofStatement]
    exact (reports_mustacheStatement b 0 m).filter
  | .block ⟨c, ⟨body, params, _, _⟩, inverse, _, _⟩ => by
    simp only [Note.ofStatement, CallSite.ofStatement, List.filter_append, filter_blockParams, List.append_nil]
    exact ((reports_blockCall b c).filter.append (reports_statements (b.enter params) body)).append
      (reports_inverse b c.callee inverse)
  | .element ⟨_, attributes, modifiers, _, params, children, _, _, _⟩ => by
    rw [Note.ofStatement, CallSite.ofStatement]
    split
    · exact (reports_statements b children).skip _
    · rw [List.filter_append]
      refine (reports_opening b _ _ attributes modifiers).append ?_
      split
      · split
        · exact reports_namedBlocks b children
        · rw [List.filter_append, filter_params]
          exact reports_statements (b.enter params) children
      · exact reports_statements b children

theorem reports_inverse (b : Bindings) (callee : Expr) : ∀ inverse : Option Arm,
    Reports ((Note.ofInverse b callee inverse).filter Note.isForm) (CallSite.ofInverse b callee inverse)
  | none => .nil _
  | some ⟨body, params, _, _⟩ => by
    rw [Note.ofInverse, CallSite.ofInverse, List.filter_append, filter_blockParams]
    exact reports_statements _ body

theorem reports_namedBlocks (b : Bindings) : ∀ ss : List Statement,
    Reports ((Note.ofNamedBlocks b ss).filter Note.isForm) (CallSite.ofNamedBlocks b ss)
  | [] => .nil _
  | .element ⟨_, _, _, _, params, children, _, _, _⟩ :: rest => by
    rw [Note.ofNamedBlocks, Note.ofNamedBlock, CallSite.ofNamedBlocks, List.filter_append]
    refine Reports.append ?_ (reports_namedBlocks b rest)
    split
    · rw [List.filter_append, filter_params]
      exact (reports_statements (b.enter params) children).skip _
    · exact .nil _
  | .mustacheComment c :: rest => by
    rw [Note.ofNamedBlocks, Note.ofNamedBlock, List.filter_append, filter_comment]
    exact (reports_namedBlocks b rest).skip _
  | .comment _ :: rest => (reports_namedBlocks b rest).skip _
  | .text t :: rest => by
    rw [Note.ofNamedBlocks, Note.ofNamedBlock, List.filter_append]
    refine Reports.append ?_ (reports_namedBlocks b rest)
    split <;> exact .nil _
  | .mustache _ :: rest => (reports_namedBlocks b rest).skip _
  | .block ⟨_, _, _, _, _⟩ :: rest => (reports_namedBlocks b rest).skip _

end

end Emit

namespace Compiled

/-- A call is the cause of an issue of a compiled template. -/
def Caused (content : Span) (o : CompileOptions) (site : CallSite) (issue : Issue) : Prop :=
  ∃ cause span, site.Causes (cause, span) ∧ issue = ⟨cause, o.file, span.shift content.start⟩

/-- The issues about forms of a template that can be read have calls of the template as their causes, each another
one: a call of a single name that has a form and that no frame around binds, and that breaks the rule of that form
for its position. The issue is shown at the call or, if the rule is about where a yield goes, at the argument
that says so. -/
theorem form_issues_caused (embedding : String) (content : Span) (o : CompileOptions) {t : Template}
    (hparse : parse ((content.slice embedding).getD "") = .ok t) :
    ∃ causes, causes <+~ t.callSites o.forms o.globals ∧
      List.Forall₂ (Caused content o) causes
        ((ofTemplate embedding content o).issues.filter fun i => i.kind = .semanticForm) := by
  have hbody : body o ((content.slice embedding).getD "") =
      Emit.statements { forms := o.forms, globals := o.globals } 1 t.body := by rw [body, hparse]
  obtain ⟨causes, hcauses, hgives⟩ := Emit.reports_statements { forms := o.forms, globals := o.globals } t.body
  rw [← Emit.notes_statements _ 1, ← hbody] at hgives
  have hfilter : (ofTemplate embedding content o).issues.filter (fun i => i.kind = .semanticForm) =
      ((Draft.issues (body o ((content.slice embedding).getD ""))).filter fun i => i.1.kind = .semanticForm).map fun i =>
        ⟨i.1, o.file, i.2.shift content.start⟩ := by
    rw [ofTemplate, List.filter_map]
    rfl
  refine ⟨causes, hcauses, ?_⟩
  rw [hfilter, filter_issues, List.forall₂_map_right_iff]
  exact (CallSite.causes_issues hgives).imp fun site i hi => ⟨i.1, i.2, hi, rfl⟩

/-- A condition without its argument, a yield to a computed block and a form as a modifier are wrong; a name that is
bound is no form. -/
theorem form_issues_caused_shadowed :
    let source := "\x7b\x7b#if\x7d\x7d\x7b\x7b/if\x7d\x7d\x7b\x7byield to=a\x7d\x7d" ++
      "<A as |if|>\x7b\x7bif\x7d\x7d</A><p \x7b\x7bif b\x7d\x7d></p>"
    let o : CompileOptions :=
      { file := "a.hbs", typesModule := "types", forms := .ofEntries [("if", .ifElse), ("yield", .yield)] }
    (ofTemplate source (.ofText source) o).issues =
        [⟨.form "if" .notOneCondition, "a.hbs", ⟨0, 14⟩⟩, ⟨.form "yield" .computedBlockName, "a.hbs", ⟨25, 26⟩⟩,
          ⟨.form "if" .asModifier, "a.hbs", ⟨52, 60⟩⟩] ∧
      ∃ t, parse source = .ok t ∧ ∃ causes, causes <+~ t.callSites o.forms o.globals ∧ causes.length = 3 := by
  intro source o
  have hslice : ((Span.ofText source).slice source).getD "" = source := by decide +kernel
  have hissues : (ofTemplate source (.ofText source) o).issues =
      [⟨.form "if" .notOneCondition, "a.hbs", ⟨0, 14⟩⟩, ⟨.form "yield" .computedBlockName, "a.hbs", ⟨25, 26⟩⟩,
        ⟨.form "if" .asModifier, "a.hbs", ⟨52, 60⟩⟩] := by
    decide +kernel
  have hread : (parse source).toOption.isSome = true := by decide +kernel
  cases hparse : parse source with
  | error e =>
    rw [hparse] at hread
    cases hread
  | ok t =>
    obtain ⟨causes, hcauses, hcaused⟩ := form_issues_caused source (.ofText source) o (hslice.symm ▸ hparse)
    refine ⟨hissues, t, rfl, causes, hcauses, ?_⟩
    rw [hcaused.length_eq, hissues]
    rfl

end Compiled

end TypedTemplate
