/-
What comes of the comments of a template. Where nothing else is wrong, its comments in braces, in the order of the
text, give the directives and the issues of the compiled template one by one: a remark gives nothing, a keyword
that is known a directive, any other keyword an issue. The comments in the opening tag of a named block are the
exception: what they say is lost.
-/
import TypedTemplate.Compiled
import TypedTemplate.Proofs.Emit.Directives
import TypedTemplate.Proofs.Template.Reader.Statement

namespace TypedTemplate

open Draft Template

/-! ## Outcomes -/

namespace Recognized

def kind? : Recognized → Option DirectiveKind
  | .directive kind => some kind
  | .unknown _ => none
  | .remark => none

def keyword? : Recognized → Option String
  | .directive _ => none
  | .unknown keyword => some keyword
  | .remark => none

end Recognized

/-- What a notice says and where. -/
def Draft.Note.outcome? : Note → Option (Recognized × Span)
  | .directive l => some (.directive l.kind, l.location)
  | .issue (.unknownDirective keyword) span => some (.unknown keyword, span)
  | .issue _ _ => none

namespace Template

/-- What a comment that is no remark says and where: at the comment or, if it is for the whole template, from the
start of the template to the end of the comment. -/
def Comment.outcome? (c : Comment) : Option (Recognized × Span) :=
  match Recognized.ofComment c.value with
  | .remark => none
  | .directive .noCheck => some (.directive .noCheck, ⟨0, c.span.stop⟩)
  | said => some (said, c.span)

/-- What comes of a comment by its place. -/
def Mention.outcome? (m : Mention) : Option (Recognized × Span) :=
  if m.inBlockTag then none else m.comment.outcome?

/-- A comment says something if it starts with the mark of directives. -/
theorem Comment.isSome_outcome? (c : Comment) :
    c.outcome?.isSome = "@glint-".toList.isPrefixOf (Text.trim c.value).toList := by
  have hremark : Recognized.ofComment c.value = .remark ↔
      "@glint-".toList.isPrefixOf (Text.trim c.value).toList = false := by
    unfold Recognized.ofComment Text.stripStart?
    cases "@glint-".toList.isPrefixOf (Text.trim c.value).toList with
    | false => simp
    | true =>
      simp only [if_true]
      split <;> simp
  unfold Comment.outcome?
  split
  · rename_i hsaid
    rw [hremark.1 hsaid]
    rfl
  · rename_i hsaid
    refine (Bool.eq_true_of_not_eq_false fun hfalse => ?_).symm
    cases hsaid.symm.trans (hremark.2 hfalse)
  · rename_i hnot _
    exact (Bool.eq_true_of_not_eq_false fun hfalse => hnot (hremark.2 hfalse)).symm

end Template

/-! ## Notes with no other issues -/

namespace Draft

variable {ns : List Note}

/-- Directives and keywords that are none, and nothing else. -/
def Quiet (ns : List Note) : Prop := ∀ n ∈ ns, n.isNotice = true

theorem directives_outcomes {β : Type} (f : DirectiveKind → Span → β) (d : Draft) :
    ((directives d).map fun l => f l.kind l.location) =
      ((notes d).filterMap Note.outcome?).filterMap fun found => found.1.kind?.map fun kind => f kind found.2 := by
  rw [directives_eq, List.map_filterMap, List.filterMap_filterMap]
  refine List.filterMap_congr fun n _ => ?_
  cases n with
  | directive l => rfl
  | issue cause span => cases cause <;> rfl

theorem Quiet.issues_outcomes {d : Draft} {β : Type} (h : Quiet (notes d)) (f : IssueCause → Span → β) :
    ((issues d).map fun i => f i.1 i.2) = ((notes d).filterMap Note.outcome?).filterMap fun found =>
      found.1.keyword?.map fun keyword => f (.unknownDirective keyword) found.2 := by
  rw [issues_eq, List.map_filterMap, List.filterMap_filterMap]
  refine List.filterMap_congr fun n hn => ?_
  have hnotice := h n hn
  cases n with
  | directive l => rfl
  | issue cause span => cases cause <;> first | rfl | cases hnotice

/-! ## What notes tell -/

/-- Notes give the outcomes of comments in their order, if nothing else is wrong. -/
def Tells (ns : List Note) (ms : List Mention) : Prop :=
  Quiet ns → ns.filterMap Note.outcome? = ms.filterMap Mention.outcome?

theorem Tells.nil : Tells [] [] := fun _ => rfl

theorem Tells.silent (h : ∀ n ∈ ns, n.isNotice = false) : Tells ns [] := by
  intro _
  refine List.filterMap_eq_nil_iff.2 fun n hn => ?_
  have hnotice := h n hn
  cases n with
  | directive l => cases hnotice
  | issue cause span => cases cause <;> first | rfl | cases hnotice

theorem Tells.append {ns' : List Note} {ms ms' : List Mention} (h : Tells ns ms) (h' : Tells ns' ms') :
    Tells (ns ++ ns') (ms ++ ms') := by
  intro hquiet
  obtain ⟨hq, hq'⟩ := List.forall_mem_append.1 hquiet
  rw [List.filterMap_append, List.filterMap_append, h hq, h' hq']

theorem Tells.of_issue {n : Note} (h : n.isNotice = false) (ms : List Mention) : Tells (n :: ns) ms := by
  intro hquiet
  exact absurd (hquiet n List.mem_cons_self) (by simp [h])

end Draft

namespace Emit

open Draft (Tells)

theorem tells_comment (c : Comment) (next : Option Span) : Tells (notes (comment c next)) [{ comment := c }] := by
  have hcomment : (notes (comment c next)).filterMap Note.outcome? = c.outcome?.toList := by
    unfold comment Comment.outcome?
    split <;> simp_all [notes, notesOf, Note.outcome?]
  intro _
  rw [hcomment, List.filterMap_cons, Mention.outcome?]
  cases c.outcome? <;> rfl

theorem tells_tagComments (parts : List TagPart) :
    Tells (notes (tagComments parts)) ((parts.filterMap TagPart.comment?).map ({ comment := · })) := by
  induction parts with
  | nil => exact .nil
  | cons part rest ih =>
    cases part with
    | attr a => exact ih
    | modifier m => exact ih
    | comment c =>
      rw [tagComments, notes_append]
      exact (tells_comment c _).append ih

theorem tells_opening (b : Bindings) (component : Bool) {e : Element} (h : e.Opened) :
    Tells (Note.ofOpening b component e.parts e.attributes e.modifiers) (e.comments.map ({ comment := · })) := by
  have htells := tells_tagComments e.parts
  rw [h.comments_parts] at htells
  have hvalues (asArgument : Bool) (as : List Attribute) :
      Tells (as.flatMap fun a => notes (attrValue b asArgument a.value)) [] :=
    .silent (List.forall_mem_flatMap.2 fun a _ => (reports_attrValue b asArgument a.value).not_isNotice)
  have harguments : Tells (if component then (e.attributes.filter (·.isArgument)).flatMap fun a =>
      notes (attrValue b true a.value) else []) [] := by
    split
    · exact hvalues true _
    · exact .nil
  have hsplats (as : List Attribute) : Tells (as.flatMap Note.ofSplattributes) [] := by
    refine .silent (List.forall_mem_flatMap.2 fun a _ => ?_)
    unfold Note.ofSplattributes
    split
    · exact List.forall_mem_nil _
    · exact List.forall_mem_singleton.2 rfl
  have hmodifiers : Tells (e.modifiers.flatMap fun m => notes (modifier b m)) [] :=
    .silent (List.forall_mem_flatMap.2 fun m _ => (reports_modifier b m).not_isNotice)
  have hcomments : e.comments.map (Mention.mk · false) = [] ++ e.comments.map (Mention.mk · false) ++ [] ++ [] ++ [] := by
    simp
  rw [Note.ofOpening, hcomments]
  exact (((harguments.append htells).append (hsplats _)).append (hvalues false _)).append hmodifiers

mutual

/-- Statements give the outcomes of their comments in the order of the text. -/
theorem tells_statements (b : Bindings) : ∀ {ss : List Statement}, statementsOpened ss →
    Tells (Note.ofStatements b ss) (mentions ss)
  | [] => fun _ => .nil
  | s :: rest => fun hopened => by
    rw [Note.ofStatements, mentions]
    exact (tells_statement b _ hopened.1).append (tells_statements b hopened.2)

theorem tells_statement (b : Bindings) (next : Option Span) : ∀ {s : Statement}, s.Opened →
    Tells (Note.ofStatement b next s) (mentionsOf s)
  | .text _ => fun _ => .nil
  | .comment _ => fun _ => .nil
  | .mustacheComment c => fun _ => by
    rw [Note.ofStatement, mentionsOf]
    exact tells_comment c next
  | .mustache m => fun _ => by
    rw [Note.ofStatement, mentionsOf]
    exact .silent (reports_mustacheStatement b 0 m).not_isNotice
  | .block ⟨c, ⟨_, params, _, _⟩, _, _, _⟩ => fun hopened => by
    have hcall := Tells.silent (reports_blockCall b c).not_isNotice
    have hparams := Tells.silent (not_isNotice_blockParams b c.callee params)
    rw [Note.ofStatement, mentionsOf]
    exact ((hcall.append hparams).append (tells_statements _ hopened.1)).append (tells_inverse b c.callee hopened.2)
  | .element ⟨_, _, _, _, params, _, _, _, _⟩ => fun hopened => by
    obtain ⟨htag, hchildren⟩ := hopened
    rw [Note.ofStatement, mentionsOf]
    split
    · exact .of_issue rfl _
    · rename_i hnamed
      rw [Bool.eq_false_iff.2 hnamed]
      refine (tells_opening b _ htag).append ?_
      split
      · split
        · exact tells_namedBlocks b hchildren
        · exact (Tells.silent (not_isNotice_params params)).append (tells_statements _ hchildren)
      · exact tells_statements b hchildren

theorem tells_inverse (b : Bindings) (callee : Expr) : ∀ {inverse : Option Arm}, inverseOpened inverse →
    Tells (Note.ofInverse b callee inverse) (inverseMentions inverse)
  | none => fun _ => .nil
  | some ⟨_, params, _, _⟩ => fun hopened => by
    rw [Note.ofInverse, inverseMentions]
    exact (Tells.silent (not_isNotice_blockParams b callee params)).append (tells_statements _ hopened)

theorem tells_namedBlocks (b : Bindings) : ∀ {ss : List Statement}, statementsOpened ss →
    Tells (Note.ofNamedBlocks b ss) (mentions ss)
  | [] => fun _ => .nil
  | s :: rest => fun hopened => by
    rw [Note.ofNamedBlocks, mentions]
    exact (tells_namedBlock b _ hopened.1).append (tells_namedBlocks b hopened.2)

theorem tells_namedBlock (b : Bindings) (next : Option Span) : ∀ {s : Statement}, s.Opened →
    Tells (Note.ofNamedBlock b next s) (mentionsOf s)
  | .text t => fun _ => by
    rw [Note.ofNamedBlock, mentionsOf]
    split
    · exact .nil
    · exact .of_issue rfl _
  | .comment _ => fun _ => .nil
  | .mustacheComment c => fun _ => by
    rw [Note.ofNamedBlock, mentionsOf]
    exact tells_comment c next
  | .mustache _ => fun _ => .of_issue rfl _
  | .block ⟨_, _, _, _, _⟩ => fun _ => .of_issue rfl _
  | .element ⟨tag, _, _, comments, params, _, _, _, _⟩ => fun hopened => by
    rw [Note.ofNamedBlock, mentionsOf]
    split
    · rename_i hnamed
      -- the comments of the tag are not written anywhere
      have hlost : Tells [] (comments.map (Mention.mk · true)) := fun _ => by
        rw [List.filterMap_map]
        exact (List.filterMap_eq_nil_iff.2 fun _ _ => rfl).symm
      have hparams := Tells.silent (not_isNotice_params params)
      rw [hnamed]
      exact hlost.append (hparams.append (tells_statements _ hopened.2))
    · exact .of_issue rfl _

end

end Emit

/-! ## Compiled templates -/

namespace Compiled

/-- Where directives are all that is wrong with a template, its comments in braces come one by one, in the order
of the text, to the directives that they give, at the comment or from the start of the template to its end, and to
the issues about keywords that give none. Only comments in the opening tag of a named block come to nothing. -/
theorem comments_come_through (embedding : String) (content : Span) (o : CompileOptions)
    (h : ∀ i ∈ (ofTemplate embedding content o).issues, i.kind = .directive) :
    ∃ t, parse ((content.slice embedding).getD "") = .ok t ∧
      ((mentions t.body).Pairwise fun m n => m.comment.span.stop ≤ n.comment.span.start) ∧
      (∀ m ∈ mentions t.body, m.outcome?.isSome =
        (!m.inBlockTag && "@glint-".toList.isPrefixOf (Text.trim m.comment.value).toList)) ∧
      (ofTemplate embedding content o).directives.map (fun d => (d.kind, d.file, d.location)) =
        ((mentions t.body).filterMap Mention.outcome?).filterMap (fun found =>
          found.1.kind?.map fun kind => (kind, o.file, found.2.shift content.start)) ∧
      (ofTemplate embedding content o).issues =
        ((mentions t.body).filterMap Mention.outcome?).filterMap (fun found =>
          found.1.keyword?.map fun keyword => ⟨.unknownDirective keyword, o.file, found.2.shift content.start⟩) := by
  have hquiet : Quiet (notes (body o ((content.slice embedding).getD ""))) := by
    intro n hn
    cases n with
    | directive l => rfl
    | issue cause span =>
      have hmem : (cause, span) ∈ Draft.issues (body o ((content.slice embedding).getD "")) := by
        rw [issues_eq]
        exact List.mem_filterMap.2 ⟨_, hn, rfl⟩
      have hkind : cause.kind = .directive := h _ (List.mem_map_of_mem hmem)
      cases cause <;> first | rfl | cases hkind
  have hdirectives := directives_outcomes (fun kind span => (kind, o.file, span.shift content.start))
    (body o ((content.slice embedding).getD ""))
  have hissues := hquiet.issues_outcomes fun cause span => Issue.mk cause o.file (span.shift content.start)
  cases hparse : parse ((content.slice embedding).getD "") with
  | error e =>
    rw [body, hparse] at hquiet
    cases hquiet _ List.mem_cons_self
  | ok t =>
    have hbody : body o ((content.slice embedding).getD "") =
        Emit.statements { forms := o.forms, globals := o.globals } 1 t.body := by rw [body, hparse]
    have htells : (notes (body o ((content.slice embedding).getD ""))).filterMap Note.outcome? =
        (mentions t.body).filterMap Mention.outcome? := by
      rw [hbody, Emit.notes_statements] at hquiet ⊢
      exact Emit.tells_statements _ (parse_opened hparse) hquiet
    rw [htells] at hdirectives hissues
    refine ⟨t, rfl, List.pairwise_map.1 (parse_mentions hparse).pairwise, fun m _ => ?_, ?_, hissues⟩
    · rw [Mention.outcome?, ← Comment.isSome_outcome?]
      cases m.inBlockTag <;> simp
    · rw [← hdirectives]
      exact List.map_map ..

/-- A directive for what follows, a keyword that is none in a tag, and a directive in a named block. -/
theorem comments_come_through_nested :
    let source :=
      "\x7b\x7b! @glint-ignore \x7d\x7d<A \x7b\x7b! @glint-no \x7d\x7d><:b>\x7b\x7b!@glint-nocheck\x7d\x7d</:b></A>"
    let compiled := ofTemplate source (.ofText source) { file := "a.hbs", typesModule := "types" }
    (∀ i ∈ compiled.issues, i.kind = .directive) ∧ ∃ t, parse source = .ok t ∧
      (mentions t.body).filterMap Mention.outcome? =
        [(.directive .ignore, ⟨0, 20⟩), (.unknown "no", ⟨23, 39⟩), (.directive .noCheck, ⟨0, 63⟩)] ∧
      compiled.directives.map (fun d => (d.kind, d.file, d.location)) =
        [(.ignore, "a.hbs", ⟨0, 20⟩), (.noCheck, "a.hbs", ⟨0, 63⟩)] ∧
      compiled.issues = [⟨.unknownDirective "no", "a.hbs", ⟨23, 39⟩⟩] := by
  intro source compiled
  have hslice : ((Span.ofText source).slice source).getD "" = source := by decide +kernel
  have hkinds : ∀ i ∈ compiled.issues, i.kind = .directive := by decide +kernel
  have hread : (parse source).toOption.map (fun t => (mentions t.body).filterMap Mention.outcome?) =
      some [(.directive .ignore, ⟨0, 20⟩), (.unknown "no", ⟨23, 39⟩), (.directive .noCheck, ⟨0, 63⟩)] := by
    decide +kernel
  obtain ⟨t, hparse, -, -, hdirectives, hissues⟩ := comments_come_through source (.ofText source) _ hkinds
  rw [hslice] at hparse
  rw [hparse] at hread
  have houtcomes : (mentions t.body).filterMap Mention.outcome? = _ := Option.some.inj hread
  rw [houtcomes] at hdirectives hissues
  exact ⟨hkinds, t, hparse, houtcomes, hdirectives, hissues⟩

/-- The comment of a named block's tag is written like a directive, and nothing comes of it. -/
theorem block_tag_comment_lost :
    let source := "<A><:b \x7b\x7b! @glint-no \x7d\x7d></:b></A>"
    let compiled := ofTemplate source (.ofText source) { file := "a.hbs", typesModule := "types" }
    (parse source).toOption.map (fun t => (mentions t.body).map (·.comment.outcome?)) =
        some [some (.unknown "no", ⟨7, 23⟩)] ∧
      compiled.issues = [] ∧ compiled.directives = [] := by
  decide +kernel

end Compiled

end TypedTemplate
