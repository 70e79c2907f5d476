/-
Where the issues and directives of a draft are shown. What is written for a template that accounts for its
text speaks of stretches of that text only: an issue is shown by a call, a value, a name, an attribute, a
statement or a comment, and a directive stands in a comment and applies to what follows it or to its end.
-/
import TypedTemplate.Proofs.Emit.Notes
import TypedTemplate.Proofs.Template.Spelling

namespace TypedTemplate

open Draft Template

variable {source : String}

/-- What a note is shown by are stretches of a text. -/
def Draft.Note.Cuts (source : String) : Note → Prop
  | .issue _ span => span.Cuts source
  | .directive l => l.location.Cuts source ∧ ∀ area ∈ l.area, area.Cuts source

/-! ## Calls -/

namespace CallSite

mutual

theorem spelled_ofExpr (b : Bindings) : ∀ e : Expr, e.Spelled source → ∀ site ∈ ofExpr b e, site.call.Spelled source
  | .path _, _ => List.forall_mem_nil _
  | .literal _ _, _ => List.forall_mem_nil _
  | .call ⟨callee, params, ⟨pairs, hash⟩, span⟩, h => by
    rw [ofExpr]
    obtain ⟨hspan, hhash, hcallee, hparams, hpairs⟩ := h
    refine List.forall_mem_cons.2 ⟨⟨hspan, hhash, hcallee, hparams, hpairs⟩, List.forall_mem_append.2 ⟨?_, ?_⟩⟩
    · exact List.forall_mem_append.2 ⟨spelled_ofExpr b callee hcallee, spelled_ofExprs b params hparams⟩
    · exact spelled_ofPairs b pairs hpairs

theorem spelled_ofExprs (b : Bindings) : ∀ es : List Expr, allSpelled source es →
    ∀ site ∈ (ofExprs b es).flatten, site.call.Spelled source
  | [], _ => List.forall_mem_nil _
  | e :: es, ⟨he, hes⟩ => by
    rw [ofExprs, List.flatten_cons]
    exact List.forall_mem_append.2 ⟨spelled_ofExpr b e he, spelled_ofExprs b es hes⟩

theorem spelled_ofPairs (b : Bindings) : ∀ ps : List Pair, pairsSpelled source ps →
    ∀ site ∈ (ofPairs b ps).flatten, site.call.Spelled source
  | [], _ => List.forall_mem_nil _
  | ⟨_, value, _⟩ :: ps, ⟨_, hvalue, _, hps⟩ => by
    rw [ofPairs, List.flatten_cons]
    exact List.forall_mem_append.2 ⟨spelled_ofExpr b value hvalue, spelled_ofPairs b ps hps⟩

end

theorem spelled_ofCall (b : Bindings) (position : CallPosition) {c : Call} (h : c.Spelled source) :
    ∀ site ∈ ofCall b position c, site.call.Spelled source := by
  refine List.forall_mem_cons.2 ⟨h, List.forall_mem_append.2 ⟨List.forall_mem_append.2 ⟨?_, ?_⟩, ?_⟩⟩
  · exact spelled_ofExpr b _ h.callee
  · exact spelled_ofExprs b _ h.params
  · exact spelled_ofPairs b _ h.pairs

theorem spelled_ofValue (b : Bindings) {v : AttrValue} (h : v.Spelled source) :
    ∀ site ∈ ofValue b v, site.call.Spelled source := by
  cases v with
  | text t => exact List.forall_mem_nil _
  | mustache m => exact spelled_ofCall b .value h
  | concat parts span =>
    refine List.forall_mem_flatMap.2 fun p hp => ?_
    have hp := h.2.2 p hp
    cases p with
    | text t => exact List.forall_mem_nil _
    | mustache m => exact spelled_ofCall b .value hp

/-- An issue about a form is shown at the call or at one of its values. -/
theorem Causes.cuts {site : CallSite} {issue : IssueCause × Span} (h : site.Causes issue)
    (hcall : site.call.Spelled source) : issue.2.Cuts source := by
  obtain ⟨call, position, b⟩ := site
  obtain ⟨cause, span⟩ := issue
  obtain ⟨-, -, form, fault, -, -, -, -, -, -, hbreaks⟩ := h
  cases hbreaks with
  | condition | block | modifier | content | value => exact hcall.span
  | target _ hpair _ =>
    obtain ⟨-, hvalue, -⟩ := (pairsSpelled_iff source).1 hcall.pairs _ (List.mem_of_find?_eq_some hpair)
    exact Expr.Spelled.cuts source hvalue

end CallSite

theorem Reports.cuts {ns : List Note} {sites : List CallSite} (h : Reports ns sites)
    (hsites : ∀ site ∈ sites, site.call.Spelled source) : ∀ n ∈ ns, n.Cuts source := by
  intro n hn
  obtain ⟨site, hsite, cause, span, rfl, hcause⟩ := h.form n hn
  exact hcause.cuts (hsites site hsite)

/-! ## Comments -/

namespace Emit

theorem cuts_comment {c : Comment} (hc : c.span.Cuts source) {next : Option Span}
    (hnext : ∀ s ∈ next, s.Cuts source) : ∀ n ∈ notes (comment c next), n.Cuts source := by
  unfold comment
  split
  · exact List.forall_mem_nil _
  · exact List.forall_mem_singleton.2 hc
  · obtain ⟨-, -, hstop⟩ := Span.cuts_iff.1 hc
    exact List.forall_mem_singleton.2 ⟨Span.cuts_iff.2 ⟨Nat.zero_le _, Text.boundary_zero _, hstop⟩, nofun⟩
  · refine List.forall_mem_singleton.2 ⟨hc, fun area harea => ?_⟩
    cases harea
    cases next with
    | none => exact hc.empty_stop
    | some s => exact hnext s rfl

/-- What follows a comment among statements is one of them. -/
theorem cuts_nextSignificant {ss : List Statement} (h : statementsAccounted source ss) :
    ∀ s ∈ nextSignificant ss, s.Cuts source := by
  intro span hspan
  obtain ⟨s, hs, hspan⟩ := List.exists_of_findSome?_eq_some hspan
  have hcuts := Statement.Accounted.cuts source ((statementsAccounted_iff source).1 h s hs)
  cases s with
  | text t =>
    dsimp only at hspan
    split at hspan
    · cases hspan
    · cases hspan
      exact hcuts
  | comment c => cases hspan
  | mustacheComment c => cases hspan
  | mustache m | block b | element e =>
    cases hspan
    exact hcuts

theorem cuts_tagComments {parts : List TagPart} (h : ∀ part ∈ parts, part.Spelled source) :
    ∀ n ∈ notes (tagComments parts), n.Cuts source := by
  induction parts with
  | nil => exact List.forall_mem_nil _
  | cons part rest ih =>
    obtain ⟨hpart, hrest⟩ := List.forall_mem_cons.1 h
    cases part with
    | attr a => exact ih hrest
    | modifier m => exact ih hrest
    | comment c =>
      rw [tagComments, notes_append]
      refine List.forall_mem_append.2 ⟨cuts_comment (Comment.Spelled.cuts source hpart) fun s hs => ?_, ih hrest⟩
      obtain ⟨part, hmem, hs⟩ := List.exists_of_findSome?_eq_some hs
      cases part with
      | attr a | modifier m =>
        cases hs
        exact TagPart.Spelled.cuts source (hrest _ hmem)
      | comment c => cases hs

/-! ## Opening tags and parameters -/

theorem cuts_opening (b : Bindings) (component : Bool) {e : Element} (h : e.Framed source) :
    ∀ n ∈ Note.ofOpening b component e.parts e.attributes e.modifiers, n.Cuts source := by
  have hvalue (asArgument : Bool) (a : Attribute) (ha : a ∈ e.attributes) :
      ∀ n ∈ notes (attrValue b asArgument a.value), n.Cuts source :=
    (reports_attrValue b asArgument a.value).cuts (CallSite.spelled_ofValue b (h.attributes a ha).value)
  unfold Note.ofOpening
  simp only [List.forall_mem_append, List.forall_mem_flatMap]
  refine ⟨⟨⟨⟨?_, cuts_tagComments (h.spelled_parts source)⟩, ?_⟩, ?_⟩, ?_⟩
  · split
    · exact List.forall_mem_flatMap.2 fun a ha => hvalue true a (List.mem_filter.1 ha).1
    · exact List.forall_mem_nil _
  · intro a ha
    unfold Note.ofSplattributes
    split
    · exact List.forall_mem_nil _
    · exact List.forall_mem_singleton.2 (h.attributes a (List.mem_filter.1 ha).1).span
  · exact fun a ha => hvalue false a (List.mem_filter.1 ha).1
  · exact fun m hm => (reports_modifier b m).cuts (CallSite.spelled_ofCall b .modifier (h.modifiers m hm))

theorem cuts_params {params : List Name} (h : ∀ p ∈ params, p.Spelled source) :
    ∀ n ∈ params.flatMap Note.ofParam, n.Cuts source := by
  refine List.forall_mem_flatMap.2 fun p hp => ?_
  unfold Note.ofParam
  split
  · exact List.forall_mem_nil _
  · exact List.forall_mem_singleton.2 ⟨_, h p hp⟩

theorem cuts_blockParams (b : Bindings) (callee : Expr) {params : List Name} (h : ∀ p ∈ params, p.Spelled source) :
    ∀ n ∈ Note.ofBlockParams b callee params, n.Cuts source := by
  unfold Note.ofBlockParams
  split
  · exact cuts_params h
  · exact List.forall_mem_nil _

/-! ## Statements -/

mutual

theorem cuts_statements (b : Bindings) : ∀ {ss : List Statement}, statementsAccounted source ss →
    ∀ n ∈ Note.ofStatements b ss, n.Cuts source
  | [], _ => List.forall_mem_nil _
  | _ :: _, ⟨hs, hrest⟩ => by
    rw [Note.ofStatements]
    exact List.forall_mem_append.2 ⟨cuts_statement b (cuts_nextSignificant hrest) hs, cuts_statements b hrest⟩

theorem cuts_statement (b : Bindings) {next : Option Span} (hnext : ∀ s ∈ next, s.Cuts source) :
    ∀ {s : Statement}, s.Accounted source → ∀ n ∈ Note.ofStatement b next s, n.Cuts source
  | .text _, _ => List.forall_mem_nil _
  | .comment _, _ => List.forall_mem_nil _
  | .mustacheComment _, h => by
    rw [Note.ofStatement]
    exact cuts_comment (Comment.Spelled.cuts source h) hnext
  | .mustache m, h => by
    rw [Note.ofStatement]
    exact (reports_mustacheStatement b 0 m).cuts (CallSite.spelled_ofCall b .content h)
  | .block ⟨c, ⟨body, params, _, _⟩, _, _, _⟩, ⟨h, hbody, hinverse⟩ => by
    rw [Note.ofStatement]
    simp only [List.forall_mem_append]
    refine ⟨⟨⟨?_, cuts_blockParams b _ (h.params _ List.mem_cons_self)⟩, cuts_statements _ hbody⟩, ?_⟩
    · exact (reports_blockCall b c).cuts (CallSite.spelled_ofCall b .block h.call)
    · refine cuts_inverse b c.callee (fun a ha => ?_) hinverse
      exact h.params a (List.mem_cons_of_mem _ (Option.mem_toList.2 ha))
  | .element ⟨_, _, _, _, _, _, _, _, _⟩, ⟨h, hchildren⟩ => by
    rw [Note.ofStatement]
    split
    · exact List.forall_mem_cons.2 ⟨h.span, cuts_statements b hchildren⟩
    · refine List.forall_mem_append.2 ⟨cuts_opening b _ h, ?_⟩
      split
      · split
        · exact cuts_namedBlocks b hchildren
        · exact List.forall_mem_append.2 ⟨cuts_params h.params, cuts_statements _ hchildren⟩
      · exact cuts_statements b hchildren

theorem cuts_inverse (b : Bindings) (callee : Expr) : ∀ {inverse : Option Arm},
    (∀ a ∈ inverse, ∀ n ∈ a.params, n.Spelled source) → inverseAccounted source inverse →
      ∀ n ∈ Note.ofInverse b callee inverse, n.Cuts source
  | none, _, _ => List.forall_mem_nil _
  | some ⟨_, params, _, _⟩, hparams, h => by
    rw [Note.ofInverse]
    exact List.forall_mem_append.2 ⟨cuts_blockParams b callee (hparams _ rfl), cuts_statements _ h⟩

theorem cuts_namedBlocks (b : Bindings) : ∀ {ss : List Statement}, statementsAccounted source ss →
    ∀ n ∈ Note.ofNamedBlocks b ss, n.Cuts source
  | [], _ => List.forall_mem_nil _
  | _ :: _, ⟨hs, hrest⟩ => by
    rw [Note.ofNamedBlocks]
    exact List.forall_mem_append.2 ⟨cuts_namedBlock b (cuts_nextSignificant hrest) hs, cuts_namedBlocks b hrest⟩

theorem cuts_namedBlock (b : Bindings) {next : Option Span} (hnext : ∀ s ∈ next, s.Cuts source) :
    ∀ {s : Statement}, s.Accounted source → ∀ n ∈ Note.ofNamedBlock b next s, n.Cuts source
  | .text _, h => by
    rw [Note.ofNamedBlock]
    split
    · exact List.forall_mem_nil _
    · exact List.forall_mem_singleton.2 ⟨_, h⟩
  | .comment _, _ => List.forall_mem_nil _
  | .mustacheComment _, h => by
    rw [Note.ofNamedBlock]
    exact cuts_comment (Comment.Spelled.cuts source h) hnext
  | .mustache _, h => List.forall_mem_singleton.2 (Call.Spelled.span h)
  | .block ⟨_, _, _, _, _⟩, h => List.forall_mem_singleton.2 (Statement.Accounted.cuts source h)
  | .element ⟨tag, _, _, _, params, children, _, _, span⟩, ⟨h, hchildren⟩ => by
    rw [Note.ofNamedBlock]
    split
    · exact List.forall_mem_append.2 ⟨cuts_params h.params, cuts_statements _ hchildren⟩
    · exact List.forall_mem_singleton.2 h.span

end

end Emit

end TypedTemplate
