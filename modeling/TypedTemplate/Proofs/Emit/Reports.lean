/-
What calls give rise to. All that is said in what is written for a value is issues about special forms; each of
them is caused by a call in the value, and no two by one call. Callees of forms can be written twice, but they are
single names, and nothing is found wrong with those.
-/
import TypedTemplate.Proofs.Draft.Notes
import TypedTemplate.Proofs.Template.CallSite
import Mathlib.Data.List.Flatten
import Mathlib.Data.List.Forall2
import Mathlib.Data.List.Perm.Subperm

namespace TypedTemplate

open Draft Template
open scoped List

/-! ## Notes and their causes -/

/-- A call gives rise to a note. -/
inductive CallSite.Gives (site : CallSite) : Note → Prop
  | issue {cause : IssueCause} {span : Span} (h : site.Causes (cause, span)) : Gives site (.issue cause span)

/-- Calls out of a list give rise to the notes, each to another of them. -/
def Reports (ns : List Note) (sites : List CallSite) : Prop :=
  ∃ causes, causes <+~ sites ∧ List.Forall₂ CallSite.Gives causes ns

/-- What is said in drafts is given rise to by the calls of each of them. -/
abbrev ReportAll : List Draft → List (List CallSite) → Prop := List.Forall₂ fun d sites => Reports (notes d) sites

namespace Reports

variable {ns ns' : List Note} {sites sites' : List CallSite}

theorem nil (sites : List CallSite) : Reports [] sites := ⟨[], List.nil_subperm, .nil⟩

theorem mono (h : Reports ns sites) (hsites : sites <+~ sites') : Reports ns sites' := by
  obtain ⟨causes, hcauses, hns⟩ := h
  exact ⟨causes, hcauses.trans hsites, hns⟩

theorem append (h : Reports ns sites) (h' : Reports ns' sites') : Reports (ns ++ ns') (sites ++ sites') := by
  obtain ⟨causes, hcauses, hns⟩ := h
  obtain ⟨causes', hcauses', hns'⟩ := h'
  exact ⟨causes ++ causes', hcauses.append hcauses', List.rel_append hns hns'⟩

theorem skip (h : Reports ns sites) (sites' : List CallSite) : Reports ns (sites' ++ sites) :=
  h.mono (List.sublist_append_right _ _).subperm

theorem later (h : Reports ns sites) (site : CallSite) : Reports ns (site :: sites) := h.skip [site]

theorem issue {site : CallSite} {cause : IssueCause} {span : Span} (h : site.Causes (cause, span))
    (hrest : Reports ns sites) : Reports (.issue cause span :: ns) (site :: sites) := by
  obtain ⟨causes, hcauses, hns⟩ := hrest
  exact ⟨site :: causes, (List.subperm_cons site).2 hcauses, .cons (.issue h) hns⟩

theorem flatMap {α : Type} {f : α → List Note} {g : α → List CallSite} {as : List α}
    (h : ∀ a ∈ as, Reports (f a) (g a)) : Reports (as.flatMap f) (as.flatMap g) := by
  induction as with
  | nil => exact nil _
  | cons a as ih =>
    obtain ⟨ha, has⟩ := List.forall_mem_cons.1 h
    exact ha.append (ih has)

/-- Some of several drafts, one after another. -/
theorem sublist {ds parts : List Draft} (h : ds <+ parts) {siteLists : List (List CallSite)}
    (hparts : ReportAll parts siteLists) : Reports (ds.flatMap notes) siteLists.flatten := by
  induction h generalizing siteLists with
  | slnil => exact nil _
  | cons d _ ih =>
    cases hparts with
    | cons _ hrest => exact (ih hrest).skip _
  | cons_cons d _ ih =>
    cases hparts with
    | cons hd hrest => exact hd.append (ih hrest)

/-- What is said is issues about forms. -/
theorem form (h : Reports ns sites) : ∀ n ∈ ns, ∃ site ∈ sites, ∃ cause span,
    n = .issue cause span ∧ site.Causes (cause, span) := by
  obtain ⟨causes, hcauses, hns⟩ := h
  have hall : ∀ site ∈ causes, site ∈ sites := fun site hsite => hcauses.subset hsite
  clear hcauses
  induction hns with
  | nil => exact nofun
  | @cons site n causes ns hgives _ ih =>
    obtain ⟨hsite, hrest⟩ := List.forall_mem_cons.1 hall
    refine List.forall_mem_cons.2 ⟨?_, ih hrest⟩
    obtain ⟨hcause⟩ := hgives
    exact ⟨site, hsite, _, _, rfl, hcause⟩

end Reports

theorem CallSite.Causes.kind {site : CallSite} {issue : IssueCause × Span} (h : site.Causes issue) :
    issue.1.kind = .semanticForm := by
  obtain ⟨_, _, _, _, _, _, _, _, _, hcause, _⟩ := h
  rw [hcause, IssueCause.kind]

/-! ## Names -/

namespace Emit

@[simp] theorem notes_line (depth : Nat) (d : Draft) : notes (line depth :: d) = notes d := rfl

@[simp] theorem notes_localIdentifier (name : String) (span : Span) : notes (localIdentifier name span) = [] := by
  unfold localIdentifier
  split <;> simp

@[simp] theorem notes_quotedName (name : String) (span : Span) : notes (quotedName name span) = [] := by
  unfold quotedName
  split <;> simp

@[simp] theorem notes_objectKey (key : String) (span : Span) : notes (objectKey key span) = [] := by
  unfold objectKey
  split <;> simp

@[simp] theorem notes_property (optional : Bool) (name : Name) : notes (property optional name) = [] := by
  unfold property
  split <;> simp

@[simp] theorem notes_reference (b : Bindings) (name : Name) : notes (reference b name) = [] := by
  unfold reference
  split <;> simp

@[simp] theorem notes_pathCode (b : Bindings) (head : PathHead) (tail : List Name) :
    notes (pathCode b head tail) = [] := by
  unfold pathCode
  split <;> simp

@[simp] theorem notes_tagPath (b : Bindings) (tag : String) (span : Span) : notes (tagPath b tag span) = [] := by
  unfold tagPath
  split <;> simp

/-! ## Calls -/

namespace CallDraft

/-- The callee and the arguments. -/
def drafts (c : CallDraft) : List Draft := c.callee :: (c.params ++ c.pairs)

variable {c : CallDraft}

@[simp] theorem notes_args (c : CallDraft) : notes c.args = (c.params ++ c.pairs).flatMap notes := by
  cases hpairs : c.pairs <;> simp [args, named, hpairs]

@[simp] theorem notes_resolve (c : CallDraft) : notes c.resolve = c.drafts.flatMap notes := by
  simp [resolve, drafts]

@[simp] theorem notes_faulty (c : CallDraft) (name : String) (fault : FormFault) :
    notes (c.faulty name fault) = [.issue (.form name fault) c.span] := rfl

@[simp] theorem notes_operation (c : CallDraft) (operator : String) :
    notes (c.operation operator) = c.params.flatMap notes := by
  simp [operation]

theorem params_sublist (c : CallDraft) : c.params <+ c.drafts := (List.sublist_append_left _ _).cons _

theorem pairs_sublist (c : CallDraft) : c.pairs <+ c.drafts := (List.sublist_append_right _ _).cons _

/-- What is written for a form as a value: it breaks a rule, and there is an issue in its place; or some of the parts
of the call are written. -/
inductive Yields (c : CallDraft) (use : FormUse) (ns : List Note) : Prop
  | fault {fault : FormFault} (h : use.form.Misused c.params.length (!c.pairs.isEmpty) fault)
      (heq : ns = [.issue (.form use.name fault) c.span])
  | written {ds : List Draft} (h : ds <+ c.drafts) (heq : ns = ds.flatMap notes)

theorem yields_choice {use : FormUse} (h : use.form = .ifElse ∨ use.form = .ifNot) :
    c.Yields use (notes (c.choice use)) := by
  unfold choice
  split
  · rename_i condition yes rest hparams
    have hsome : condition :: yes :: rest.take 1 <+ c.params := by
      rw [hparams]
      exact ((List.take_sublist 1 rest).cons_cons yes).cons_cons condition
    refine .written (hsome.trans c.params_sublist) ?_
    cases rest <;> simp
  · rename_i hfew
    refine .fault (.choice h ?_) rfl
    cases hparams : c.params with
    | nil => simp
    | cons d ds =>
      cases ds with
      | nil => simp
      | cons d' ds => exact absurd hparams (hfew d d' ds)

theorem yields_positional {use : FormUse} {otherwise : Draft} (hform : use.form ∈ [.array, .strictEqual, .strictNotEqual,
    .conjunction, .disjunction, .negation]) (h : c.Yields use (notes otherwise)) :
    c.Yields use (notes (c.positional use otherwise)) := by
  unfold positional
  split
  · exact h
  · rename_i hpairs
    exact .fault (.named hform (by simpa using hpairs)) rfl

theorem yields_formValue (c : CallDraft) (use : FormUse) : c.Yields use (notes (c.formValue use)) := by
  have hoperation (operator : String) : c.Yields use (notes (c.operation operator)) :=
    .written c.params_sublist (by simp)
  obtain ⟨name, form, imported⟩ := use
  unfold formValue
  cases form with
  | ifElse => exact yields_choice (.inl rfl)
  | ifNot => exact yields_choice (.inr rfl)
  | yield => exact .fault .yield rfl
  | object =>
    simp only
    split
    · rename_i hany
      exact .fault (.object (List.length_pos_iff.2 (by simpa using hany))) rfl
    · split
      · exact .written (List.nil_sublist _) rfl
      · exact .written c.pairs_sublist (by simp [objectLiteral])
  | array => exact yields_positional (by simp) (.written c.params_sublist (by simp))
  | bindInvokable =>
    simp only
    split
    · rename_i hnone
      exact .fault (.unbound (by simpa using hnone)) rfl
    · split
      · rename_i hmixed
        exact .fault (.mixed hmixed.1 hmixed.2) rfl
      · exact .written (.refl _) (by simp)
  | strictEqual =>
    refine yields_positional (by simp) ?_
    split
    · exact .fault (.equality (.inl rfl) ‹_›) rfl
    · exact hoperation _
  | strictNotEqual =>
    refine yields_positional (by simp) ?_
    split
    · exact .fault (.equality (.inr rfl) ‹_›) rfl
    · exact hoperation _
  | conjunction =>
    refine yields_positional (by simp) ?_
    split
    · exact .fault (.connective (.inl rfl) ‹_›) rfl
    · exact hoperation _
  | disjunction =>
    refine yields_positional (by simp) ?_
    split
    · exact .fault (.connective (.inr rfl) ‹_›) rfl
    · exact hoperation _
  | negation =>
    refine yields_positional (by simp) ?_
    split
    · rename_i value hvalue
      exact .written c.params_sublist (by simp [hvalue])
    · rename_i hother
      refine .fault (.negation fun hone => ?_) rfl
      obtain ⟨value, hvalue⟩ := List.length_eq_one_iff.1 hone
      exact hother value hvalue

end CallDraft

/-! ## Expressions -/

theorem length_exprs (b : Bindings) (es : List Expr) : (exprs b es).length = es.length := by
  induction es with
  | nil => rfl
  | cons e es ih => rw [exprs, List.length_cons, ih, List.length_cons]

theorem isEmpty_pairDrafts (b : Bindings) (ps : List Pair) : (pairDrafts b ps).isEmpty = ps.isEmpty := by
  cases ps with
  | nil => rfl
  | cons p ps =>
    obtain ⟨key, value, span⟩ := p
    rw [pairDrafts]
    rfl

/-- The calls in each part of a call give rise to what is said in its draft. -/
def CallReports (b : Bindings) (c : Call) : Prop :=
  ReportAll (call b c).drafts
    (CallSite.ofExpr b c.callee :: (CallSite.ofExprs b c.params ++ CallSite.ofPairs b c.hash.pairs))

variable {b : Bindings} {c : Call} {use : FormUse}

/-- The callee of a form is a name, of which nothing is said. -/
theorem notes_callee (hform : b.formOf? c.callee = some use) : notes (expr b c.callee) = [] := by
  obtain ⟨p, -, hcallee, -⟩ := Bindings.formOf?_eq_some hform
  simp [hcallee, expr, path]

theorem CallReports.sublist (h : CallReports b c) {ds : List Draft} (hds : ds <+ (call b c).drafts) :
    Reports (ds.flatMap notes) (CallSite.inside b c) := by
  have hsome := Reports.sublist hds h
  rwa [List.flatten_cons, List.flatten_append, ← List.append_assoc] at hsome

theorem CallReports.passed (h : CallReports b c) {ds : List Draft} (hds : ds <+ (call b c).drafts)
    (position : CallPosition) : Reports (ds.flatMap notes) (CallSite.ofCall b position c) :=
  (h.sublist hds).later _

theorem CallReports.formExpression (h : CallReports b c) (hform : b.formOf? c.callee = some use)
    {position : CallPosition} (hbreaks : ∀ fault, use.form.Misused c.params.length (!c.hash.pairs.isEmpty) fault →
      use.form.Breaks c position fault c.span) :
    Reports (notes ((call b c).formExpression use)) (CallSite.ofCall b position c) := by
  have hvalue : notes ((call b c).formExpression use) = notes ((call b c).formValue use) := by
    unfold CallDraft.formExpression
    split <;> simp [call, notes_callee hform]
  rw [hvalue]
  cases (call b c).yields_formValue use with
  | @fault fault hmisused heq =>
    rw [call, length_exprs, isEmpty_pairDrafts] at hmisused
    rw [heq]
    exact .issue (CallSite.causes_of_breaks hform (hbreaks fault hmisused)) (.nil _)
  | written hds heq =>
    rw [heq]
    exact h.passed hds position

theorem CallReports.resolve (h : CallReports b c) (position : CallPosition) :
    Reports (notes (call b c).resolve) (CallSite.ofCall b position c) := by
  rw [CallDraft.notes_resolve]
  exact h.passed (.refl _) position

/-- The arguments of a call that is wrong where it stands are written all the same. -/
theorem CallReports.misplaced (h : CallReports b c) (hform : b.formOf? c.callee = some use) {position : CallPosition}
    {fault : FormFault} (hbreaks : use.form.Breaks c position fault c.span) :
    Reports (.issue (.form use.name fault) c.span :: notes (call b c).args) (CallSite.ofCall b position c) := by
  rw [CallDraft.notes_args]
  exact .issue (CallSite.causes_of_breaks hform hbreaks) (h.sublist (List.sublist_cons_self _ _))

mutual

theorem reports_expr (b : Bindings) : ∀ e : Expr, Reports (notes (expr b e)) (CallSite.ofExpr b e)
  | .path p => by simpa [expr, path] using Reports.nil _
  | .literal value span => by simpa [expr] using Reports.nil _
  | .call ⟨callee, params, ⟨pairs, hashSpan⟩, span⟩ => by
    have hcall : CallReports b ⟨callee, params, ⟨pairs, hashSpan⟩, span⟩ :=
      .cons (reports_expr b callee) (List.rel_append (reports_exprs b params) (reports_pairDrafts b pairs))
    rw [expr, CallSite.ofExpr, notes_node]
    cases hform : b.formOf? callee with
    | none => exact hcall.resolve .value
    | some use => exact hcall.formExpression hform fun _ => .value

theorem reports_exprs (b : Bindings) : ∀ es : List Expr, ReportAll (exprs b es) (CallSite.ofExprs b es)
  | [] => .nil
  | e :: es => by
    rw [exprs, CallSite.ofExprs]
    exact .cons (reports_expr b e) (reports_exprs b es)

theorem reports_pairDrafts (b : Bindings) : ∀ ps : List Pair, ReportAll (pairDrafts b ps) (CallSite.ofPairs b ps)
  | [] => .nil
  | ⟨key, value, span⟩ :: ps => by
    rw [pairDrafts, CallSite.ofPairs]
    exact .cons (by simpa using reports_expr b value) (reports_pairDrafts b ps)

end

theorem callReports (b : Bindings) (c : Call) : CallReports b c :=
  .cons (reports_expr b c.callee) (List.rel_append (reports_exprs b c.params) (reports_pairDrafts b c.hash.pairs))

/-! ## Mustaches -/

/-- A mustache as a value, and one between other content unless it is a yield. -/
theorem reports_mustacheValue (b : Bindings) (asArgument : Bool) (m : Mustache) {position : CallPosition}
    (hposition : position = .value ∨
      position = .content ∧ ∀ use, b.formOf? m.call.callee = some use → use.form ≠ .yield) :
    Reports (notes (mustacheValue b asArgument m)) (CallSite.ofCall b position m.call) := by
  have hcall := callReports b m.call
  have hcallee : Reports (notes (expr b m.call.callee)) (CallSite.ofCall b position m.call) := by
    have hone : [expr b m.call.callee] <+ (call b m.call).drafts := List.cons_sublist_cons.2 (List.nil_sublist _)
    simpa using hcall.passed hone position
  unfold mustacheValue
  split
  · rename_i use hform
    refine hcall.formExpression hform fun fault hmisused => ?_
    rcases hposition with rfl | ⟨rfl, hyield⟩
    · exact .value hmisused
    · exact .content (hyield use hform) hmisused
  · split
    · exact hcall.resolve position
    · split
      · exact hcallee
      · simpa using hcallee

theorem notes_mention (depth : Nat) (use : FormUse) {callee : Draft} (h : notes callee = []) :
    notes (mention depth use callee) = [] := by
  unfold mention
  split <;> simp [h]

theorem reports_yieldStatement (depth : Nat) (hform : b.formOf? c.callee = some use) (hyield : use.form = .yield) :
    Reports (notes (yieldStatement b depth use c)) (CallSite.ofCall b .content c) := by
  have hcall := callReports b c
  have hparams := hcall.passed (call b c).params_sublist .content
  have hnotes : notes (yieldStatement b depth use c) =
      notes (yieldTarget use c.hash.pairs) ++ (call b c).params.flatMap notes := by
    simp [yieldStatement, notes_mention depth use (notes_callee hform), call]
  rw [hnotes]
  unfold yieldTarget
  split
  · exact hparams
  · rename_i pair hpair
    split
    · simpa using hparams
    · rename_i hcomputed
      have hbreaks := SpecialForm.Breaks.target hyield hpair fun name span => hcomputed name span
      exact .issue (CallSite.causes_of_breaks hform hbreaks) (hcall.sublist (call b c).params_sublist)

theorem reports_mustacheStatement (b : Bindings) (depth : Nat) (m : Mustache) :
    Reports (notes (mustacheStatement b depth m)) (CallSite.ofCall b .content m.call) := by
  unfold mustacheStatement
  split
  · rename_i hform
    exact reports_yieldStatement depth hform rfl
  · rename_i hother
    have hvalue : Reports (notes (mustacheValue b false m)) (CallSite.ofCall b .content m.call) := by
      refine reports_mustacheValue b false m (.inr ⟨rfl, fun use hform hyield => ?_⟩)
      obtain ⟨name, form, imported⟩ := use
      cases hyield
      exact hother name imported hform
    simpa using hvalue

/-! ## Opening tags and blocks -/

theorem reports_attrValue (b : Bindings) (asArgument : Bool) (v : AttrValue) :
    Reports (notes (attrValue b asArgument v)) (CallSite.ofValue b v) := by
  cases v with
  | text t => simpa [attrValue] using Reports.nil _
  | mustache m => simpa [attrValue, CallSite.ofValue] using reports_mustacheValue b asArgument m (.inl rfl)
  | concat parts span =>
    have hparts : Reports (parts.flatMap fun p => notes (concatPart b p)) (parts.flatMap (CallSite.ofPart b)) := by
      refine .flatMap fun p _ => ?_
      cases p with
      | text t => exact .nil _
      | mustache m => simpa [concatPart, CallSite.ofPart] using reports_mustacheValue b false m (.inl rfl)
    simpa [attrValue, CallSite.ofValue] using hparts

theorem reports_modifier (b : Bindings) (c : Call) :
    Reports (notes (modifier b c)) (CallSite.ofCall b .modifier c) := by
  unfold modifier
  simp only
  split
  · rename_i use hform
    simpa using (callReports b c).misplaced hform .modifier
  · have hresolve := (callReports b c).resolve .modifier
    cases hany : (call b c).hasArguments with
    | false =>
      have hnone : (call b c).params = [] ∧ (call b c).pairs = [] := by simpa [CallDraft.hasArguments] using hany
      simpa [CallDraft.drafts, hnone] using hresolve
    | true => simpa [CallDraft.drafts] using hresolve

theorem reports_condition (hform : b.formOf? c.callee = some use) (hcondition : use.form = .ifElse ∨ use.form = .ifNot) :
    Reports (notes (condition b use c)) (CallSite.ofCall b .block c) := by
  unfold condition
  split
  · rename_i value hparams hpairs
    have hvalue := (callReports b c).passed (call b c).params_sublist .block
    simpa [call, hparams, exprs] using hvalue
  · rename_i hother
    have hbreaks : use.form.Breaks c .block .notOneCondition c.span := by
      refine .condition hcondition ?_
      rintro ⟨hone, hnone⟩
      obtain ⟨value, hvalue⟩ := List.length_eq_one_iff.1 hone
      exact hother value hvalue hnone
    exact .issue (CallSite.causes_of_breaks hform hbreaks) (.nil _)

end Emit

end TypedTemplate
