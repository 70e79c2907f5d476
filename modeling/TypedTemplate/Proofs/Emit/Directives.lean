/-
Where the directives of a template come from, and with them the keywords that are none. Names, values and calls
hold neither; every one of what is written for statements is that of a comment in one of their bodies, or in an
opening tag, and a directive applies to the first node after the comment that it can apply to. If there is none,
it applies to the end of the comment.
-/
import TypedTemplate.Proofs.Emit.Notes
import TypedTemplate.Proofs.Template.Body

namespace TypedTemplate

open Draft Template

/-- A directive, or a keyword that is none. -/
def Draft.Note.isNotice : Note → Bool
  | .issue (.unknownDirective _) _ => true
  | .issue _ _ => false
  | .directive _ => true

/-- Calls give no notice. -/
theorem Reports.not_isNotice {ns : List Note} {sites : List CallSite} (h : Reports ns sites) :
    ∀ n ∈ ns, n.isNotice = false := by
  intro n hn
  obtain ⟨_, -, cause, span, rfl, hcause⟩ := h.form n hn
  have hkind : cause.kind = .semanticForm := hcause.kind
  cases cause <;> first | rfl | cases hkind

/-! ## Comments and what follows them -/

namespace Template

/-- Where the first of the things after `x` stands that count; nowhere if none of them counts. -/
def NextAfter {α : Type} (counts : α → Prop) (span : α → Span) (x : α) (xs : List α) : Option Span → Prop
  | some target => ∃ front gap y back, xs = front ++ x :: (gap ++ y :: back) ∧
      (∀ g ∈ gap, ¬ counts g) ∧ counts y ∧ span y = target
  | none => ∃ front back, xs = front ++ x :: back ∧ ∀ y ∈ back, ¬ counts y

theorem nextAfter_findSome? {α : Type} {counts : α → Prop} {span : α → Span} {f : α → Option Span}
    (hf : ∀ y, f y = none ∧ ¬ counts y ∨ f y = some (span y) ∧ counts y) (front : List α) (x : α)
    (back : List α) : NextAfter counts span x (front ++ x :: back) (back.findSome? f) := by
  have hnone {y : α} (hy : f y = none) : ¬ counts y := by
    rcases hf y with ⟨-, h⟩ | ⟨h, -⟩
    · exact h
    · rw [hy] at h
      cases h
  cases hfound : back.findSome? f with
  | none => exact ⟨front, back, rfl, fun y hy => hnone (List.findSome?_eq_none_iff.1 hfound y hy)⟩
  | some target =>
    obtain ⟨gap, y, rest, rfl, hy, hgap⟩ := List.findSome?_eq_some_iff.1 hfound
    rcases hf y with ⟨h, -⟩ | ⟨h, hcounts⟩
    · rw [hy] at h
      cases h
    · exact ⟨front, gap, y, rest, rfl, fun g hg => hnone (hgap g hg), hcounts,
        Option.some.inj (h.symm.trans hy)⟩

/-- A part of an opening tag that a directive can apply to. -/
def TagPart.IsSignificant : TagPart → Prop
  | .attr _ => True
  | .modifier _ => True
  | .comment _ => False

/-- A comment of a template, between statements or in an opening tag, and the span of what a directive in it
applies to: the first statement, attribute or modifier after it that it can apply to, if there is one. -/
def Governs (root : List Statement) (c : Comment) (target : Option Span) : Prop :=
  ∃ body, IsBody root body ∧
    (NextAfter Statement.IsSignificant Statement.span (.mustacheComment c) body target ∨
      ∃ e, .element e ∈ body ∧ NextAfter TagPart.IsSignificant TagPart.span (.comment c) e.parts target)

namespace Governs

variable {ss : List Statement} {c : Comment} {target : Option Span}

theorem cons (h : Governs ss c target) (s : Statement) : Governs (s :: ss) c target := by
  obtain ⟨body, hbody, h⟩ := h
  have hnext {x : Statement} {t : Option Span} (h : NextAfter Statement.IsSignificant Statement.span x ss t) :
      NextAfter Statement.IsSignificant Statement.span x (s :: ss) t := by
    cases t with
    | none =>
      obtain ⟨front, back, rfl, h⟩ := h
      exact ⟨s :: front, back, rfl, h⟩
    | some t =>
      obtain ⟨front, gap, y, back, rfl, h⟩ := h
      exact ⟨s :: front, gap, y, back, rfl, h⟩
  cases hbody with
  | self _ =>
    refine ⟨s :: ss, .self _, h.imp hnext fun ⟨e, he, h⟩ => ?_⟩
    exact ⟨e, List.mem_cons_of_mem s he, h⟩
  | program hb hbody => exact ⟨body, .program (List.mem_cons_of_mem s hb) hbody, h⟩
  | inverse hb harm hbody => exact ⟨body, .inverse (List.mem_cons_of_mem s hb) harm hbody, h⟩
  | children he hbody => exact ⟨body, .children (List.mem_cons_of_mem s he) hbody, h⟩

theorem program {b : Block} (hb : .block b ∈ ss) (h : Governs b.program.body c target) :
    Governs ss c target := by
  obtain ⟨body, hbody, h⟩ := h
  exact ⟨body, .program hb hbody, h⟩

theorem inverse {b : Block} {arm : Arm} (hb : .block b ∈ ss) (harm : arm ∈ b.inverse)
    (h : Governs arm.body c target) : Governs ss c target := by
  obtain ⟨body, hbody, h⟩ := h
  exact ⟨body, .inverse hb harm hbody, h⟩

theorem children {e : Element} (he : .element e ∈ ss) (h : Governs e.children c target) :
    Governs ss c target := by
  obtain ⟨body, hbody, h⟩ := h
  exact ⟨body, .children he hbody, h⟩

end Governs

end Template

/-! ## Notes of comments -/

namespace Emit

/-- A note of a comment of a template, for what it applies to. -/
def Arises (ss : List Statement) (n : Note) : Prop :=
  ∃ c target, Governs ss c target ∧ n ∈ notes (comment c target)

namespace Arises

variable {n : Note} {rest : List Statement}

theorem cons (h : Arises rest n) (s : Statement) : Arises (s :: rest) n := by
  obtain ⟨c, target, h, hl⟩ := h
  exact ⟨c, target, h.cons s, hl⟩

theorem program {b : Block} (h : Arises b.program.body n) : Arises (.block b :: rest) n := by
  obtain ⟨c, target, h, hl⟩ := h
  exact ⟨c, target, .program List.mem_cons_self h, hl⟩

theorem inverse {b : Block} (h : ∃ arm ∈ b.inverse, Arises arm.body n) : Arises (.block b :: rest) n := by
  obtain ⟨arm, harm, c, target, h, hl⟩ := h
  exact ⟨c, target, .inverse List.mem_cons_self harm h, hl⟩

theorem children {e : Element} (h : Arises e.children n) : Arises (.element e :: rest) n := by
  obtain ⟨c, target, h, hl⟩ := h
  exact ⟨c, target, .children List.mem_cons_self h, hl⟩

end Arises

theorem arises_tagComments {ss : List Statement} {e : Element} (he : .element e ∈ ss)
    {n : Note} (hl : n ∈ notes (tagComments e.parts)) : Arises ss n := by
  -- the parts that are still to come, after those that are done
  suffices h : ∀ parts front : List TagPart, e.parts = front ++ parts →
      n ∈ notes (tagComments parts) → Arises ss n from h e.parts [] rfl hl
  intro parts
  induction parts with
  | nil => exact fun front _ hl => by cases hl
  | cons part rest ih =>
    intro front hparts hl
    have hrest := ih (front ++ [part]) (by rw [hparts, List.append_assoc, List.singleton_append])
    cases part with
    | attr a => exact hrest hl
    | modifier m => exact hrest hl
    | comment c =>
      rw [tagComments, notes_append] at hl
      refine (List.mem_append.1 hl).elim (fun hl => ?_) hrest
      refine ⟨c, _, ⟨ss, .self ss, .inr ⟨e, he, ?_⟩⟩, hl⟩
      rw [hparts]
      refine nextAfter_findSome? (fun part => ?_) front (.comment c) rest
      cases part with
      | attr a => exact .inr ⟨rfl, trivial⟩
      | modifier m => exact .inr ⟨rfl, trivial⟩
      | comment c => exact .inl ⟨rfl, id⟩

theorem arises_comment {c : Comment} {rest : List Statement} {n : Note}
    (hl : n ∈ notes (comment c (nextSignificant rest))) : Arises (.mustacheComment c :: rest) n := by
  refine ⟨c, _, ⟨_, .self _, .inl (nextAfter_findSome? (fun s => ?_) [] _ rest)⟩, hl⟩
  cases s with
  | text t =>
    cases hblank : t.isBlank with
    | true => exact .inl ⟨by simp [hblank], fun h => by cases hblank.symm.trans h⟩
    | false => exact .inr ⟨by simp [hblank, Statement.span], hblank⟩
  | comment c => exact .inl ⟨rfl, id⟩
  | mustacheComment c => exact .inl ⟨rfl, id⟩
  | mustache m => exact .inr ⟨rfl, trivial⟩
  | block blk => exact .inr ⟨rfl, trivial⟩
  | element e => exact .inr ⟨rfl, trivial⟩

theorem not_isNotice_params (params : List Name) : ∀ n ∈ params.flatMap Note.ofParam, n.isNotice = false := by
  refine List.forall_mem_flatMap.2 fun p _ => ?_
  unfold Note.ofParam
  split
  · exact List.forall_mem_nil _
  · exact List.forall_mem_singleton.2 rfl

theorem not_isNotice_blockParams (b : Bindings) (callee : Expr) (params : List Name) :
    ∀ n ∈ Note.ofBlockParams b callee params, n.isNotice = false := by
  unfold Note.ofBlockParams
  split
  · exact not_isNotice_params params
  · exact List.forall_mem_nil _

/-- The notices of an opening tag are those of its comments. -/
theorem mem_tagComments {b : Bindings} {component : Bool} {parts : List TagPart} {attributes : List Attribute}
    {modifiers : List Call} {n : Note} (h : n ∈ Note.ofOpening b component parts attributes modifiers)
    (hn : n.isNotice = true) : n ∈ notes (tagComments parts) := by
  have hvalue (asArgument : Bool) (a : Attribute) : n ∉ notes (attrValue b asArgument a.value) := fun hmem =>
    absurd hn (by simp [(reports_attrValue b asArgument a.value).not_isNotice n hmem])
  simp only [Note.ofOpening, List.mem_append, List.mem_flatMap] at h
  rcases h with (((h | h) | ⟨a, -, h⟩) | ⟨a, -, h⟩) | ⟨m, -, h⟩
  · split at h
    · obtain ⟨a, -, h⟩ := List.mem_flatMap.1 h
      exact absurd h (hvalue true a)
    · cases h
  · exact h
  · unfold Note.ofSplattributes at h
    split at h
    · cases h
    · rw [List.mem_singleton.1 h] at hn
      cases hn
  · exact absurd h (hvalue false a)
  · exact absurd hn (by simp [(reports_modifier b m).not_isNotice n h])

mutual

/-- Every notice of statements is that of a comment among them, or in one of them. -/
theorem arises_statements (b : Bindings) {n : Note} (hn : n.isNotice = true) :
    ∀ {ss : List Statement}, n ∈ Note.ofStatements b ss → Arises ss n
  | [] => fun hl => absurd hl List.not_mem_nil
  | s :: rest => fun hl => by
    rw [Note.ofStatements] at hl
    rcases List.mem_append.1 hl with hl | hl
    · rcases arises_statement b (nextSignificant rest) hn hl with ⟨c, rfl, hl⟩ | h
      · exact arises_comment hl
      · exact h rest
    · exact (arises_statements b hn hl).cons s

theorem arises_statement (b : Bindings) (next : Option Span) {n : Note} (hn : n.isNotice = true) :
    ∀ {s : Statement}, n ∈ Note.ofStatement b next s →
      (∃ c, s = .mustacheComment c ∧ n ∈ notes (comment c next)) ∨ ∀ rest, Arises (s :: rest) n
  | .text _ => fun hl => absurd hl List.not_mem_nil
  | .comment _ => fun hl => absurd hl List.not_mem_nil
  | .mustacheComment c => fun hl => by
    rw [Note.ofStatement] at hl
    exact .inl ⟨c, rfl, hl⟩
  | .mustache m => fun hl => by
    rw [Note.ofStatement] at hl
    exact absurd hn (by simp [(reports_mustacheStatement b 0 m).not_isNotice n hl])
  | .block ⟨c, ⟨_, params, _, _⟩, _, _, _⟩ => fun hl => by
    refine .inr fun rest => ?_
    rw [Note.ofStatement] at hl
    simp only [List.mem_append] at hl
    rcases hl with ((hl | hl) | hl) | hl
    · exact absurd hn (by simp [(reports_blockCall b c).not_isNotice n hl])
    · exact absurd hn (by simp [not_isNotice_blockParams b c.callee params n hl])
    · exact Arises.program (arises_statements _ hn hl)
    · exact Arises.inverse (arises_inverse b c.callee hn hl)
  | .element ⟨_, _, _, _, params, _, _, _, _⟩ => fun hl => by
    refine .inr fun rest => ?_
    rw [Note.ofStatement] at hl
    split at hl
    · rcases List.mem_cons.1 hl with rfl | hl
      · cases hn
      · exact Arises.children (arises_statements b hn hl)
    · rcases List.mem_append.1 hl with hl | hl
      · exact arises_tagComments List.mem_cons_self (mem_tagComments hl hn)
      · refine Arises.children ?_
        split at hl
        · split at hl
          · exact arises_namedBlocks b hn hl
          · rcases List.mem_append.1 hl with hl | hl
            · exact absurd hn (by simp [not_isNotice_params params n hl])
            · exact arises_statements _ hn hl
        · exact arises_statements b hn hl

theorem arises_inverse (b : Bindings) (callee : Expr) {n : Note} (hn : n.isNotice = true) :
    ∀ {inverse : Option Arm}, n ∈ Note.ofInverse b callee inverse → ∃ arm ∈ inverse, Arises arm.body n
  | none => fun hl => absurd hl List.not_mem_nil
  | some ⟨_, params, _, _⟩ => fun hl => by
    rw [Note.ofInverse] at hl
    rcases List.mem_append.1 hl with hl | hl
    · exact absurd hn (by simp [not_isNotice_blockParams b callee params n hl])
    · exact ⟨_, rfl, arises_statements _ hn hl⟩

theorem arises_namedBlocks (b : Bindings) {n : Note} (hn : n.isNotice = true) :
    ∀ {ss : List Statement}, n ∈ Note.ofNamedBlocks b ss → Arises ss n
  | [] => fun hl => absurd hl List.not_mem_nil
  | s :: rest => fun hl => by
    rw [Note.ofNamedBlocks] at hl
    rcases List.mem_append.1 hl with hl | hl
    · rcases arises_namedBlock b (nextSignificant rest) hn hl with ⟨c, rfl, hl⟩ | h
      · exact arises_comment hl
      · exact h rest
    · exact (arises_namedBlocks b hn hl).cons s

theorem arises_namedBlock (b : Bindings) (next : Option Span) {n : Note} (hn : n.isNotice = true) :
    ∀ {s : Statement}, n ∈ Note.ofNamedBlock b next s →
      (∃ c, s = .mustacheComment c ∧ n ∈ notes (comment c next)) ∨ ∀ rest, Arises (s :: rest) n
  | .text t => fun hl => by
    rw [Note.ofNamedBlock] at hl
    split at hl
    · cases hl
    · rw [List.mem_singleton.1 hl] at hn
      cases hn
  | .comment _ => fun hl => absurd hl List.not_mem_nil
  | .mustacheComment c => fun hl => .inl ⟨c, rfl, hl⟩
  | .mustache m => fun hl => by
    rw [List.mem_singleton.1 hl] at hn
    cases hn
  | .block ⟨_, _, _, _, _⟩ => fun hl => by
    rw [List.mem_singleton.1 hl] at hn
    cases hn
  | .element ⟨_, _, _, _, params, _, _, _, _⟩ => fun hl => by
    refine .inr fun rest => ?_
    rw [Note.ofNamedBlock] at hl
    split at hl
    · rcases List.mem_append.1 hl with hl | hl
      · exact absurd hn (by simp [not_isNotice_params params n hl])
      · exact Arises.children (arises_statements _ hn hl)
    · rw [List.mem_singleton.1 hl] at hn
      cases hn

end

end Emit

end TypedTemplate
