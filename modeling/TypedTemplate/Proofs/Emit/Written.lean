/-
Every occurrence that a template writes stands in its code, inside the declarations of the bodies around it.
Going out from an occurrence, the blocks that are open there are those that bodies start with the
declaration of their parameters, from the innermost body to the outermost, and between them blocks that
declare nothing or an element.
-/
import TypedTemplate.Proofs.Draft.Standing
import TypedTemplate.Proofs.Emit.Formed
import TypedTemplate.Proofs.Template.Occurrence

namespace TypedTemplate

open Code (Opener)
open Draft Template Emit

variable {blocks : List (List String)} {ds : List Binder}

/-- A block parameter as it is written. -/
def Emit.localText (name : String) : String := (localName name).1 ++ (localName name).2

/-- The parameters of a body as they are written. -/
def Binder.locals (d : Binder) : List String := d.names.map localText

/-- Blocks with their declarations, and the bodies that are written in them. -/
inductive Shows : List (List String) → List Binder → Prop
  | done : Shows [] []
  /-- A block that belongs to no body. -/
  | other {own : List String} {blocks : List (List String)} {ds : List Binder} :
      own = [] ∨ own = ["__glintY__"] → Shows blocks ds → Shows (own :: blocks) ds
  | declared {d : Binder} {blocks : List (List String)} {ds : List Binder} :
      d.binding = .declared → (∀ name ∈ d.names, isIdentifier name = true) → Shows blocks ds →
        Shows (d.locals :: blocks) (d :: ds)
  /-- A body whose parameters nothing declares. -/
  | hidden {d : Binder} {blocks : List (List String)} {ds : List Binder} :
      d.binding ≠ .declared → Shows blocks ds → Shows blocks (d :: ds)

theorem Shows.append {blocks' : List (List String)} {ds' : List Binder} (h : Shows blocks ds) (h' : Shows blocks' ds') :
    Shows (blocks ++ blocks') (ds ++ ds') := by
  induction h with
  | done => exact h'
  | other hown _ ih => exact .other hown ih
  | declared hd hnames _ ih => exact .declared hd hnames ih
  | hidden hd _ ih => exact .hidden hd ih

theorem Shows.isIdentifier (h : Shows blocks ds) {d : Binder} (hd : d ∈ ds) (hdeclared : d.binding = .declared) :
    ∀ name ∈ d.names, Emit.isIdentifier name = true := by
  induction h with
  | done => cases hd
  | other _ _ ih => exact ih hd
  | declared _ hnames _ ih =>
    rcases List.mem_cons.1 hd with rfl | hd
    · exact hnames
    · exact ih hd
  | hidden hhidden _ ih =>
    rcases List.mem_cons.1 hd with rfl | hd
    · exact absurd hdeclared hhidden
    · exact ih hd

/-- The block of a body that declares its parameters, between those of the bodies in it and around it. -/
theorem Shows.split (h : Shows blocks ds) {d : Binder} {outer : List Binder} (hdeclared : d.binding = .declared) :
    ∀ {inner : List Binder}, ds = inner ++ d :: outer → ∃ within around,
      blocks = within ++ d.locals :: around ∧ Shows within inner ∧ Shows around outer := by
  induction h with
  | done =>
    intro inner heq
    exact absurd heq.symm (List.append_ne_nil_of_right_ne_nil _ (List.cons_ne_nil _ _))
  | @other own blocks ds hown _ ih =>
    intro inner heq
    obtain ⟨within, around, rfl, hwithin, haround⟩ := ih heq
    exact ⟨own :: within, around, rfl, .other hown hwithin, haround⟩
  | @declared e blocks ds he hnames hshows ih =>
    intro inner heq
    cases inner with
    | nil =>
      obtain ⟨rfl, rfl⟩ := List.cons.inj heq
      exact ⟨[], blocks, rfl, .done, hshows⟩
    | cons e' inner =>
      obtain ⟨rfl, hrest⟩ := List.cons.inj heq
      obtain ⟨within, around, rfl, hwithin, haround⟩ := ih hrest
      exact ⟨e.locals :: within, around, rfl, .declared he hnames hwithin, haround⟩
  | @hidden e blocks ds he _ ih =>
    intro inner heq
    cases inner with
    | nil =>
      obtain ⟨rfl, rfl⟩ := List.cons.inj heq
      exact absurd hdeclared he
    | cons e' inner =>
      obtain ⟨rfl, hrest⟩ := List.cons.inj heq
      obtain ⟨within, around, rfl, hwithin, haround⟩ := ih hrest
      exact ⟨within, around, rfl, .hidden he hwithin, haround⟩

theorem Shows.not_mem (h : Shows blocks ds) {name : String} (hname : name ≠ "__glintY__")
    (hds : ∀ d ∈ ds, d.binding = .declared → name ∉ d.locals) : ∀ names ∈ blocks, name ∉ names := by
  induction h with
  | done => simp
  | other hown _ ih =>
    refine List.forall_mem_cons.2 ⟨?_, ih hds⟩
    rcases hown with rfl | rfl
    · exact List.not_mem_nil
    · simpa using hname
  | declared hd _ _ ih =>
    obtain ⟨hfirst, hrest⟩ := List.forall_mem_cons.1 hds
    exact List.forall_mem_cons.2 ⟨hfirst hd, ih hrest⟩
  | hidden _ _ ih => exact ih (List.forall_mem_cons.1 hds).2

/-- The draft `d`, which stands in the bodies `outer`, writes the occurrence `u`, unless it has an issue.
If `plain`, what comes before the occurrence in `d` starts with no declaration. -/
def Writes (plain : Bool) (outer : List Binder) (d : Draft) (u : Occurrence) : Prop :=
  issues d = [] → ∃ before blocks added, Stands u.draft before d ∧ Code.Leads before.toList blocks ∧
    Shows blocks added ∧ u.place.binders = added ++ outer ∧
      (plain = true → Code.Plain before.toList)

namespace Draft

/-- A draft whose code declares nothing at the start of a block. -/
def Plain (d : Draft) : Prop := Code.Plain (code d).toList

variable {d e : Draft}

theorem Plain.append (h : Plain d) (e : Draft) : Plain (d ++ e) := by
  rw [Plain, code_append, String.toList_append]
  exact Code.Plain.append h _

theorem plain_text {text : String} (h : Code.startsPlain text.toList = true) : Plain [.text text] := by
  rw [Plain, code, codeOf, code, String.append_empty]
  exact Code.plain_of_startsPlain h

theorem Plain.node (h : Plain d) (kind : String) (span : Span) : Plain (Draft.node kind span d) := by
  rwa [Plain, Draft.node, code, codeOf, code, String.append_empty]

theorem Plain.line (h : Plain d) (depth : Nat) : Plain (Emit.line depth :: d) := by
  rw [Plain, ← List.singleton_append, code_append, String.toList_append]
  exact Code.Plain.after_blanks h (blank_line depth)

/-- A draft that opens a block with the declaration of `own`, and leaves in it the brackets `l` open. -/
def Enters (own : List String) (l : List Opener) (front : Draft) : Prop :=
  ∃ k lead opening, (code front).toList = lead ++ '{' :: opening ∧ Code.Reads [] k lead ∧ .brace ∉ k ∧
    Code.Reads [] l opening ∧ Code.Opens opening own

theorem Enters.append {own : List String} {l l' : List Opener} (h : Enters own l d)
    (he : Reads l l' e) : Enters own l' (d ++ e) := by
  obtain ⟨k, lead, opening, hcode, hlead, hk, hopening, hopens⟩ := h
  refine ⟨k, lead, opening ++ (code e).toList, ?_, hlead, hk, hopening.append he, hopens.append _⟩
  rw [code_append, String.toList_append, hcode, List.append_assoc, List.cons_append]

end Draft

namespace Writes

variable {plain : Bool} {outer : List Binder} {d front : Draft} {u : Occurrence}

theorem here (h : u.place.binders = outer) : Writes false outer u.draft u := by
  intro _
  exact ⟨"", [], [], .refl _, Code.leads_nil, .done, h, nofun⟩

theorem of_issues (h : issues d ≠ []) : Writes plain outer d u := fun hissues => absurd hissues h

theorem loosen (h : Writes plain outer d u) : Writes false outer d u := by
  intro hissues
  obtain ⟨before, blocks, added, hstands, hleads, hshows, hbinders, -⟩ := h hissues
  exact ⟨before, blocks, added, hstands, hleads, hshows, hbinders, nofun⟩

theorem left (h : Writes plain outer d u) (rest : Draft) : Writes plain outer (d ++ rest) u := by
  intro hissues
  rw [issues_append] at hissues
  obtain ⟨before, blocks, added, hstands, h⟩ := h (List.append_eq_nil_iff.1 hissues).1
  exact ⟨before, blocks, added, hstands.left rest, h⟩

theorem node (h : Writes plain outer d u) (kind : String) (span : Span) :
    Writes plain outer (Draft.node kind span d) u := by
  intro hissues
  rw [Draft.node, issues, issuesOf, issues, List.append_nil] at hissues
  obtain ⟨before, blocks, added, hstands, h⟩ := h hissues
  exact ⟨before, blocks, added, hstands.node kind span, h⟩

theorem within (h : Writes plain outer d u) (params : List Name) :
    Writes plain outer (Draft.within params d) u := by
  intro hissues
  rw [Draft.within, issues, issuesOf, issues, List.append_nil] at hissues
  obtain ⟨before, blocks, added, hstands, h⟩ := h hissues
  exact ⟨before, blocks, added, hstands.within params, h⟩

/-- After code that leaves no block open. -/
theorem after (plain : Bool) {k : List Opener} (h : Writes false outer d u) (hfront : Reads [] k front)
    (hk : .brace ∉ k) (hplain : plain = true → Draft.Plain front) : Writes plain outer (front ++ d) u := by
  intro hissues
  rw [issues_append] at hissues
  obtain ⟨before, blocks, added, hstands, hleads, hshows, hbinders, -⟩ :=
    h (List.append_eq_nil_iff.1 hissues).2
  refine ⟨code front ++ before, blocks, added, .after front hstands, ?_, hshows, hbinders, ?_⟩
  · rw [String.toList_append]
    exact hleads.after hfront hk
  · intro hp
    rw [String.toList_append]
    exact Code.Plain.append (hplain hp) _

/-- After parts that leave no block open. -/
theorem behind (h : Writes false outer d u) (p : Part) (ps : List Part)
    (hopen : (leaves [] true (p :: ps)).any (!·.1.contains .brace) = true) :
    Writes false outer (Part.write p.draft ps ++ d) u := by
  obtain ⟨⟨k, gap⟩, hk, hbrace⟩ := (Option.any_eq_true _ _).1 hopen
  exact h.after false (reads_write p ps hk) (by simpa using hbrace) nofun

/-- After bracketed code, which may be where a block starts. -/
theorem after_bracketed (h : Writes plain outer d u) (hfront : Bracketed front)
    (hplain : plain = true → code front = "" ∨ Draft.Plain front) : Writes plain outer (front ++ d) u := by
  intro hissues
  rw [issues_append] at hissues
  obtain ⟨before, blocks, added, hstands, hleads, hshows, hbinders, hbefore⟩ :=
    h (List.append_eq_nil_iff.1 hissues).2
  refine ⟨code front ++ before, blocks, added, .after front hstands, ?_, hshows, hbinders, ?_⟩
  · rw [String.toList_append]
    exact hleads.after_bracketed hfront
  · intro hp
    rw [String.toList_append]
    rcases hplain hp with hempty | hfront
    · rw [hempty]
      exact hbefore hp
    · exact Code.Plain.append hfront _

theorem line (h : Writes true outer d u) (depth : Nat) :
    Writes true outer (Emit.line depth :: d) u := by
  intro hissues
  obtain ⟨before, blocks, added, hstands, hleads, hshows, hbinders, hbefore⟩ := h hissues
  refine ⟨code [Emit.line depth] ++ before, blocks, added, .after [Emit.line depth] hstands, ?_, hshows,
    hbinders, ?_⟩
  · rw [String.toList_append]
    exact hleads.after_bracketed (bracketed_line depth)
  · intro _
    rw [String.toList_append]
    exact (hbefore rfl).after_blanks (blank_line depth)

/-- In a body whose parameters nothing declares. -/
theorem hide {e : Binder} (h : Writes plain (e :: outer) d u) (he : e.binding ≠ .declared) :
    Writes plain outer d u := by
  intro hissues
  obtain ⟨before, blocks, added, hstands, hleads, hshows, hbinders, hbefore⟩ := h hissues
  refine ⟨before, blocks, added ++ [e], hstands, hleads, ?_, ?_, hbefore⟩
  · rw [← List.append_nil blocks]
    exact hshows.append (.hidden he .done)
  · rw [hbinders, List.append_assoc, List.singleton_append]

/-- In a block that opens with a declaration. -/
theorem enter (plain : Bool) {own : List String} {extra : List Binder} {l : List Opener}
    (h : Writes false (extra ++ outer) d u) (hfront : Enters own l front) (hl : .brace ∉ l)
    (hown : issues front = [] → Shows [own] extra) (hplain : plain = true → Draft.Plain front) :
    Writes plain outer (front ++ d) u := by
  intro hissues
  rw [issues_append] at hissues
  obtain ⟨hfrontIssues, hissues⟩ := List.append_eq_nil_iff.1 hissues
  obtain ⟨before, blocks, added, hstands, hleads, hshows, hbinders, -⟩ := h hissues
  obtain ⟨k, lead, opening, hcode, hlead, hk, hopening, hopens⟩ := hfront
  refine ⟨code front ++ before, blocks ++ [own], added ++ extra, .after front hstands, ?_,
    hshows.append (hown hfrontIssues), by rw [hbinders, List.append_assoc], ?_⟩
  · rw [String.toList_append, hcode, List.append_assoc, List.cons_append]
    exact ((hleads.after hopening hl).block (hopens.append _)).after hlead hk
  · intro hp
    rw [String.toList_append]
    exact Code.Plain.append (hplain hp) _

/-- In the block of a component or an element. -/
theorem inElement {l : List Opener} (h : Writes false outer d u) (hfront : Enters ["__glintY__"] l front)
    (hl : .brace ∉ l) (hplain : Draft.Plain front) : Writes true outer (front ++ d) u := by
  have h : Writes false ([] ++ outer) d u := h
  exact h.enter true hfront hl (fun _ => .other (.inr rfl) .done) fun _ => hplain

/-- In a block that opens with no declaration. -/
theorem object (plain : Bool) (front : Draft) {k : List Opener} (lead blanks : List Char) (h : Writes true outer d u)
    (hcode : (code front).toList = lead ++ '{' :: blanks) (hlead : Code.Reads [] k lead) (hk : .brace ∉ k)
    (hblanks : ∀ c ∈ blanks, Code.isBlank c = true) (hplain : plain = true → Draft.Plain front) :
    Writes plain outer (front ++ d) u := by
  intro hissues
  rw [issues_append] at hissues
  obtain ⟨before, blocks, added, hstands, hleads, hshows, hbinders, hbefore⟩ :=
    h (List.append_eq_nil_iff.1 hissues).2
  refine ⟨code front ++ before, blocks ++ [[]], added, .after front hstands, ?_, ?_, hbinders, ?_⟩
  · rw [String.toList_append, hcode, List.append_assoc, List.cons_append]
    have hinside := hleads.after_bracketed (Code.bracketed_blanks hblanks)
    exact (hinside.block (hbefore rfl blanks hblanks)).after hlead hk
  · rw [← List.append_nil added]
    exact hshows.append (.other (.inl rfl) .done)
  · intro hp
    rw [String.toList_append]
    exact Code.Plain.append (hplain hp) _

theorem flatMap {α : Type} {f : α → Draft} {x : α} : ∀ {xs : List α}, x ∈ xs →
    Writes plain outer (f x) u → (∀ y ∈ xs, Bracketed (f y) ∧ (plain = true → Draft.Plain (f y))) →
      Writes plain outer (xs.flatMap f) u
  | y :: ys, hx, h, hall => by
    rw [List.flatMap_cons]
    rcases List.mem_cons.1 hx with rfl | hx
    · exact h.left _
    · have hy := hall y List.mem_cons_self
      have hys := flatMap hx h fun z hz => hall z (List.mem_cons_of_mem y hz)
      exact hys.after_bracketed hy.1 fun hp => .inr (hy.2 hp)

theorem separated {separator : String} (hs : adds [] separator = some []) : ∀ {ds : List Draft},
    d ∈ ds → Writes plain outer d u → (∀ e ∈ ds, Bracketed e ∧ (plain = true → Draft.Plain e)) →
      Writes plain outer (Draft.separated separator ds) u
  | [e], hd, h, _ => by
    rw [List.mem_singleton] at hd
    rwa [Draft.separated, ← hd]
  | e :: e' :: es, hd, h, hall => by
    rw [Draft.separated]
    · rcases List.mem_cons.1 hd with rfl | hd
      · exact (h.left _).left _
      · have he := hall e List.mem_cons_self
        have hes := separated hs hd h fun y hy => hall y (List.mem_cons_of_mem e hy)
        exact hes.after_bracketed (he.1.append (bracketed_text (of_adds hs).2)) fun hp => .inr ((he.2 hp).append _)
    · exact List.cons_ne_nil _ _

end Writes

/-! ## Calls -/

namespace Emit

theorem plain_objectKey (key : String) (span : Span) :
    Draft.Plain (objectKey key span ++ [Piece.text ": "]) := by
  unfold objectKey
  split
  · rename_i hkey
    have hchars := List.all_eq_true.1 (all_of_isIdentifier hkey)
    have hcode : (code (Draft.name key key span ++ [Piece.text ": "])).toList =
        key.toList ++ [':'] ++ [' '] := by simp [Draft.name, code, codeOf]
    rw [Draft.Plain, hcode]
    refine (Code.plain_word hchars (by decide) (.inl ?_) fun _ => by decide).append _
    intro hnil
    rw [isIdentifier, hnil] at hkey
    cases hkey
  · refine Plain.append ?_ _
    rw [Draft.Plain, code_quotedName, Text.quoted]
    exact Code.plain_of_startsPlain (by simp [Code.startsPlain, isIdentifierChar, Code.isBlank])

/-- A call whose parts are formed, and whose named arguments start with their keys. -/
structure CallDraft.Keyed (c : CallDraft) : Prop extends c.Formed where
  keys : ∀ d ∈ c.pairs, Draft.Plain d

/-- An argument of a call writes the occurrence. -/
def CallDraft.Passes (c : CallDraft) (outer : List Binder) (u : Occurrence) : Prop :=
  (∃ d ∈ c.params, Writes false outer d u) ∨ ∃ d ∈ c.pairs, Writes true outer d u

theorem CallDraft.formValue_of_choice (c : CallDraft) {use : FormUse}
    (h : use.form = .ifElse ∨ use.form = .ifNot) : c.formValue use = c.choice use := by
  unfold CallDraft.formValue
  rcases h with h | h <;> rw [h]

namespace CallDraft.Keyed

variable {c : CallDraft} {outer : List Binder} {d : Draft} {u : Occurrence}

theorem writes_named (h : c.Keyed) (hd : d ∈ c.pairs) (hu : Writes true outer d u) :
    Writes false outer c.named u := by
  have hpairs : Writes true outer (c.pairs.flatMap (· ++ [Piece.text ", "])) u :=
    Writes.flatMap hd (hu.left _) fun e he =>
      ⟨(h.pairs e he).bracketed.append (bracketed_text rfl), fun _ => (h.keys e he).append _⟩
  exact Writes.node (Writes.left (hpairs.object false [.text "\x7b "] [] [' '] rfl
    (Code.bracketed_nil.reads []) List.not_mem_nil (List.all_eq_true.1 (by decide)) nofun) _) _ _

theorem writes_args (h : c.Keyed) (hu : c.Passes outer u) : Writes false outer c.args u := by
  have hall : ∀ e ∈ c.params ++ (if c.pairs.isEmpty then [] else [c.named]),
      Draft.Bracketed e ∧ (false = true → Draft.Plain e) := by
    intro e he
    refine ⟨?_, nofun⟩
    rcases List.mem_append.1 he with he | he
    · exact (h.params e he).bracketed
    · split at he
      · cases he
      · rw [List.mem_singleton.1 he]
        exact h.named.bracketed
  rcases hu with ⟨d, hd, hu⟩ | ⟨d, hd, hu⟩
  · exact Writes.separated rfl (List.mem_append_left _ hd) hu hall
  · have hnamed : c.named ∈ if c.pairs.isEmpty then [] else [c.named] := by
      rw [if_neg]
      · exact List.mem_singleton.2 rfl
      · rw [List.isEmpty_iff]
        exact List.ne_nil_of_mem hd
    exact Writes.separated rfl (List.mem_append_right _ hnamed) (h.writes_named hd hu) hall

theorem writes_resolve (h : c.Keyed) (hu : Writes false outer c.callee u ∨ c.Passes outer u) :
    Writes false outer c.resolve u := by
  rcases hu with hu | hu
  · exact (((hu.behind (.code [.text "__glintDSL__.resolve("]) [] rfl).left _).left _).left _
  · exact ((h.writes_args hu).behind (.code [.text "__glintDSL__.resolve("])
      [.term h.callee, .code [.text ")("]] rfl).left _

/-! ### Special forms -/

theorem writes_faulty (name : String) (fault : FormFault) : Writes false outer (c.faulty name fault) u :=
  .of_issues (List.cons_ne_nil _ _)

theorem writes_choice (h : c.Keyed) (use : FormUse) (hd : d ∈ c.params.take 3)
    (hu : Writes false outer d u) : Writes false outer (c.choice use) u := by
  have hparams := h.params
  unfold CallDraft.choice
  split
  · rename_i condition yes rest heq
    rw [heq] at hparams hd
    have hcondition := hparams condition List.mem_cons_self
    have hyes := hparams yes (List.mem_cons_of_mem _ List.mem_cons_self)
    have hmem : d = condition ∨ d = yes ∨ d = rest.headD [.text "undefined"] := by
      cases rest with
      | nil => exact (List.mem_cons.1 hd).imp_right fun hd => .inl (List.mem_singleton.1 hd)
      | cons no more => simpa using hd
    by_cases hform : use.form = .ifNot
    · rw [if_pos hform]
      rcases hmem with rfl | rfl | rfl
      · exact (((((hu.behind (.code [.text "(!("]) [] rfl).left _).left _).left _).left _).left _
      · exact (((hu.behind (.code [.text "(!("]) [.term hcondition, .code [.text ") ? ("]] rfl).left _).left _).left _
      · exact (hu.behind (.code [.text "(!("]) [.term hcondition, .code [.text ") ? ("], .term hyes,
          .code [.text ") : ("]] rfl).left _
    · rw [if_neg hform]
      rcases hmem with rfl | rfl | rfl
      · exact (((((hu.behind (.code [.text "(("]) [] rfl).left _).left _).left _).left _).left _
      · exact (((hu.behind (.code [.text "(("]) [.term hcondition, .code [.text ") ? ("]] rfl).left _).left _).left _
      · exact (hu.behind (.code [.text "(("]) [.term hcondition, .code [.text ") ? ("], .term hyes,
          .code [.text ") : ("]] rfl).left _
  · exact writes_faulty _ _

/-- The values of a form that takes no named arguments. -/
theorem writes_positional (use : FormUse) {otherwise : Draft} (hu : c.Passes outer u)
    (h : ∀ d ∈ c.params, Writes false outer d u → Writes false outer otherwise u) :
    Writes false outer (c.positional use otherwise) u := by
  unfold CallDraft.positional
  split
  · rename_i hpairs
    rcases hu with ⟨d, hd, hu⟩ | ⟨d, hd, -⟩
    · exact h d hd hu
    · rw [List.isEmpty_iff.1 hpairs] at hd
      cases hd
  · exact writes_faulty _ _

theorem writes_separated (h : c.Keyed) {separator : String} (hs : adds [] separator = some []) (hd : d ∈ c.params)
    (hu : Writes false outer d u) : Writes false outer (Draft.separated separator c.params) u :=
  Writes.separated hs hd hu fun e he => ⟨(h.params e he).bracketed, nofun⟩

theorem writes_operation (h : c.Keyed) {operator : String} (hop : adds [] operator = some []) (hd : d ∈ c.params)
    (hu : Writes false outer d u) : Writes false outer (c.operation operator) u :=
  ((h.writes_separated hop hd hu).behind (.code [.text "("]) [] rfl).left _

theorem writes_objectLiteral (h : c.Keyed) (hd : d ∈ c.pairs) (hu : Writes true outer d u) :
    Writes false outer c.objectLiteral u := by
  have hpairs : Writes true outer (Draft.separated ", " c.pairs) u :=
    Writes.separated rfl hd hu fun e he => ⟨(h.pairs e he).bracketed, fun _ => h.keys e he⟩
  exact Writes.node (Writes.left (hpairs.object false [.text "\x7b "] [] [' '] rfl
    (Code.bracketed_nil.reads []) List.not_mem_nil (List.all_eq_true.1 (by decide)) nofun) _) _ _

/-- A form that is no choice writes all its arguments. -/
theorem writes_formValue (h : c.Keyed) {use : FormUse} (hform : ¬(use.form = .ifElse ∨ use.form = .ifNot))
    (hu : c.Passes outer u) : Writes false outer (c.formValue use) u := by
  obtain ⟨name, form, imported⟩ := use
  cases form with
  | ifElse => exact absurd (.inl rfl) hform
  | ifNot => exact absurd (.inr rfl) hform
  | yield => exact writes_faulty _ _
  | object =>
    simp only [CallDraft.formValue]
    split
    · exact writes_faulty _ _
    · rename_i hparams
      have hparams : c.params = [] := by simpa using hparams
      rcases hu with ⟨d, hd, -⟩ | ⟨d, hd, hu⟩
      · rw [hparams] at hd
        cases hd
      · rw [if_neg (by rw [List.isEmpty_iff]; exact List.ne_nil_of_mem hd)]
        exact ((h.writes_objectLiteral hd hu).behind (.code [.text "("]) [] rfl).left _
  | array =>
    exact writes_positional _ hu fun d hd hu =>
      ((h.writes_separated rfl hd hu).behind (.code [.text "["]) [] rfl).left _
  | bindInvokable =>
    simp only [CallDraft.formValue]
    split
    · exact writes_faulty _ _
    · split
      · exact writes_faulty _ _
      · exact h.writes_resolve (.inr hu)
  | strictEqual | strictNotEqual | conjunction | disjunction =>
    refine writes_positional _ hu fun d hd hu => ?_
    split
    · exact writes_faulty _ _
    · exact h.writes_operation (by split <;> rfl) hd hu
  | negation =>
    refine writes_positional _ hu fun d hd hu => ?_
    split
    · rename_i value heq
      rw [heq] at hd
      rw [List.mem_singleton.1 hd] at hu
      exact (hu.behind (.code [.text "!("]) [] rfl).left _
    · exact writes_faulty _ _

theorem writes_formExpression (h : c.Keyed) (use : FormUse) (hu : Writes false outer (c.formValue use) u) :
    Writes false outer (c.formExpression use) u := by
  unfold CallDraft.formExpression
  split
  · exact (hu.behind (.code [.text "(__glintDSL__.noop("]) [.term h.callee, .code [.text "), "]] rfl).left _
  · exact hu

end CallDraft.Keyed

theorem not_written_of_mem_dropped {us : List Occurrence} {u : Occurrence}
    (hu : u ∈ us.map Occurrence.dropped) : u.place.written ≠ true := by
  obtain ⟨v, -, rfl⟩ := List.mem_map.1 hu
  exact Bool.false_ne_true

/-- Drafts that write their occurrences, each its own. -/
def WriteAll (plain : Bool) (outer : List Binder) : List (List Occurrence) → List Draft → Prop :=
  List.Forall₂ fun us d => ∀ u ∈ us, u.place.written = true → Writes plain outer d u

theorem WriteAll.exists {plain : Bool} {outer : List Binder} {uss : List (List Occurrence)}
    {ds : List Draft} (h : WriteAll plain outer uss ds) {u : Occurrence} (hu : u ∈ uss.flatten)
    (hw : u.place.written = true) : ∃ d ∈ ds, Writes plain outer d u := by
  induction h with
  | nil => cases hu
  | @cons us d uss ds hd _ ih =>
    rw [List.flatten_cons] at hu
    rcases List.mem_append.1 hu with hu | hu
    · exact ⟨d, List.mem_cons_self, hd u hu hw⟩
    · obtain ⟨e, he, hwrites⟩ := ih hu
      exact ⟨e, List.mem_cons_of_mem d he, hwrites⟩

theorem plain_pairs (b : Bindings) (ps : List Pair) : ∀ d ∈ pairDrafts b ps, Draft.Plain d := by
  induction ps with
  | nil =>
    intro d hd
    cases hd
  | cons pair ps ih =>
    obtain ⟨key, value, span⟩ := pair
    intro d hd
    rcases List.mem_cons.1 hd with rfl | hd
    · exact ((plain_objectKey key.text key.span).append _).node _ _
    · exact ih d hd

theorem keyed_call (b : Bindings) (c : Call) : (call b c).Keyed :=
  ⟨formed_call b c, plain_pairs b c.hash.pairs⟩

mutual

theorem writes_expr (p : Place) : ∀ (e : Expr) {u : Occurrence}, u ∈ Occurrence.ofExpr p e →
    u.place.written = true → Writes false p.binders (expr p.bindings e) u
  | .path q, u, hu, _ => by
    rw [List.mem_singleton.1 hu]
    exact Writes.here (u := ⟨p, q.head, q.tail, q.span⟩) rfl
  | .literal _ _, _, hu, _ => nomatch hu
  | .call ⟨callee, params, ⟨pairs, hashSpan⟩, span⟩, u, hu, hw => by
    rw [expr]
    exact Writes.node (writes_value p ⟨callee, params, ⟨pairs, hashSpan⟩, span⟩ hu hw) _ _

theorem writes_value (p : Place) : ∀ (c : Call) {u : Occurrence}, u ∈ Occurrence.ofExpr p (.call c) →
    u.place.written = true →
      Writes false p.binders ((call p.bindings c).value (p.bindings.formOf? c.callee)) u
  | ⟨callee, params, ⟨pairs, hashSpan⟩, span⟩, u, hu, hw => by
    have h := keyed_call p.bindings ⟨callee, params, ⟨pairs, hashSpan⟩, span⟩
    have hparams := writes_exprs p params
    have hpairs := writes_pairs p pairs
    rw [Occurrence.ofExpr] at hu
    cases hform : p.bindings.formOf? callee with
    | none =>
      rw [hform] at hu
      rcases List.mem_append.1 hu with hu | hu
      · rcases List.mem_append.1 hu with hu | hu
        · exact h.writes_resolve (.inl (writes_expr p callee hu hw))
        · exact h.writes_resolve (.inr (.inl (hparams.exists hu hw)))
      · exact h.writes_resolve (.inr (.inr (hpairs.exists hu hw)))
    | some use =>
      rw [hform] at hu
      refine h.writes_formExpression use ?_
      dsimp only at hu
      split at hu
      · rename_i hchoice
        rw [CallDraft.formValue_of_choice _ hchoice]
        rcases List.mem_append.1 hu with hu | hu
        · obtain ⟨d, hd, hwrites⟩ := WriteAll.exists (List.forall₂_take 3 hparams) hu hw
          exact h.writes_choice use hd hwrites
        · exact absurd hw (not_written_of_mem_dropped hu)
      · rename_i hchoice
        refine h.writes_formValue hchoice ?_
        rcases List.mem_append.1 hu with hu | hu
        · exact .inl (hparams.exists hu hw)
        · exact .inr (hpairs.exists hu hw)

theorem writes_exprs (p : Place) : ∀ es : List Expr,
    WriteAll false p.binders (Occurrence.ofExprs p es) (exprs p.bindings es)
  | [] => .nil
  | e :: es => .cons (fun _ hu hw => writes_expr p e hu hw) (writes_exprs p es)

theorem writes_pairs (p : Place) : ∀ ps : List Pair,
    WriteAll true p.binders (Occurrence.ofPairs p ps) (pairDrafts p.bindings ps)
  | [] => .nil
  | ⟨key, value, span⟩ :: ps => by
    refine .cons (fun u hu hw => ?_) (writes_pairs p ps)
    refine Writes.node ((writes_expr p value hu hw).after true ?_ List.not_mem_nil fun _ => ?_) _ _
    · exact reads_write (.term (formed_objectKey key.text key.span)) [.code [.text ": "]] rfl
    · exact plain_objectKey key.text key.span

end

theorem passes_of_mem (p : Place) {c : Call} {u : Occurrence} (hu : u ∈ Occurrence.ofArguments p c)
    (hw : u.place.written = true) : (call p.bindings c).Passes p.binders u := by
  rcases List.mem_append.1 hu with hu | hu
  · exact .inl ((writes_exprs p c.params).exists hu hw)
  · exact .inr ((writes_pairs p c.hash.pairs).exists hu hw)

theorem writes_mustacheValue (p : Place) (asArgument : Bool) (m : Mustache) {u : Occurrence}
    (hu : u ∈ Occurrence.ofMustache p m) (hw : u.place.written = true) :
    Writes false p.binders (mustacheValue p.bindings asArgument m) u := by
  have hvalue := writes_value p m.call hu hw
  unfold mustacheValue
  split
  · rename_i use hform
    rwa [hform] at hvalue
  · rename_i hform
    rw [hform] at hvalue
    split
    · exact hvalue
    · rename_i hnone
      have hcallee : Writes false p.binders (expr p.bindings m.call.callee) u := by
        obtain ⟨⟨callee, params, ⟨pairs, hashSpan⟩, span⟩, trusting⟩ := m
        have hempty : params = [] ∧ pairs = [] := by
          simpa [Call.hasArguments, Hash.isEmpty] using hnone
        obtain ⟨rfl, rfl⟩ := hempty
        rw [Occurrence.ofMustache, Occurrence.ofExpr] at hu
        simp only at hform
        rw [hform] at hu
        exact writes_expr p callee (by simpa [Occurrence.ofExprs, Occurrence.ofPairs] using hu) hw
      split
      · exact hcallee
      · exact (hcallee.behind (.code [.text "__glintDSL__.resolveOrReturn("]) [] rfl).left _

end Emit

end TypedTemplate
