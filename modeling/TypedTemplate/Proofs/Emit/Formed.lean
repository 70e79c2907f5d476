/-
Generated code is formed: every emitter closes the brackets, strings and literals that it opens, and none other,
whatever names, texts and numbers it writes, and writes code between the end of a mark and the next name. An emitter
that starts with code is formed whatever comes before it; one that starts with a name needs code before it.
-/
import TypedTemplate.Proofs.Draft.Formed
import TypedTemplate.Proofs.Emit.Literal
import TypedTemplate.Proofs.Template.Neat

namespace TypedTemplate

open Code (Opener)
open Draft Template

namespace Emit

variable (b : Bindings) (depth : Nat)

/-! ## Parts

What an emitter writes is a list of parts, one after another. The code in it says by itself which brackets are open
after each of them. -/

variable {gap gap' : Bool} {k l : List Opener} {attributes : List Attribute} {t : OpenTag} {body : Draft}

/-- Code as it is written. -/
inductive Bit where
  | text (code : String)
  | line (depth : Nat)

def Bit.piece : Bit → Piece
  | .text code => .text code
  | .line depth => Emit.line depth

def Bit.after (k : List Opener) : Bit → Option (List Opener)
  | .text code => adds k code
  | .line _ => some k

/-- Code, a formed draft that needs code before it, or another formed draft. -/
inductive Part where
  | code (bits : List Bit)
  | term {d : Draft} (h : Formed true d)
  | phrase {d : Draft} (h : Formed false d)

namespace Part

def draft : Part → Draft
  | .code bits => bits.map Bit.piece
  | .term (d := d) _ => d
  | .phrase (d := d) _ => d

/-- The brackets that are open after a part, and whether it ends with code. -/
def after (k : List Opener) (gap : Bool) : Part → Option (List Opener × Bool)
  | .code bits => if bits.isEmpty then none else (bits.foldlM Bit.after k).map (·, true)
  | .term _ => if gap then some (k, false) else none
  | .phrase _ => some (k, false)

/-- Parts after a draft. -/
def write : Draft → List Part → Draft
  | d, [] => d
  | d, p :: ps => write (d ++ p.draft) ps

end Part

/-- The brackets that are open after parts. -/
def leaves (k : List Opener) (gap : Bool) (ps : List Part) : Option (List Opener × Bool) :=
  ps.foldlM (fun s p => p.after s.1 s.2) (k, gap)

theorem bracketed_line : Bracketed [line depth] := Code.bracketed_blanks (blank_line depth)

theorem flows_line (k : List Opener) : Flows gap k k true [line depth] :=
  ⟨(bracketed_line depth).reads k, by simp [line], fun _ => by simp [line]⟩

theorem formed_line : Formed false [line depth] := (flows_line depth []).formed

theorem flows_bit : ∀ {bit : Bit}, bit.after k = some l →
    Flows gap k l true [bit.piece]
  | .text _, h => flows_text h
  | .line depth, h => by
    cases h
    exact flows_line depth k

theorem flows_bits {k l : List Opener} {gap : Bool} : ∀ (bits : List Bit) {k₁ : List Opener} {d : Draft},
    Flows gap k k₁ true d → bits.foldlM Bit.after k₁ = some l → Flows gap k l true (d ++ bits.map Bit.piece)
  | [], _, d, hd, h => by
    cases h
    simpa using hd
  | bit :: bits, k₁, d, hd, h => by
    obtain ⟨k₂, hbit, h⟩ := Option.bind_eq_some_iff.1 h
    simpa using flows_bits bits (hd.append (flows_bit hbit)) h

theorem flows_part : ∀ {p : Part}, p.after k gap = some (l, gap') →
    Flows gap k l gap' p.draft
  | .term hd, h => by
    cases gap with
    | false => cases h
    | true =>
      cases h
      exact hd.flows k
  | .phrase hd, h => by
    cases h
    exact (hd.any gap).flows k
  | .code [], h => by cases h
  | .code (bit :: bits), h => by
    obtain ⟨l', hbits, hl⟩ := Option.map_eq_some_iff.1 h
    cases hl
    obtain ⟨k₁, hbit, hbits⟩ := Option.bind_eq_some_iff.1 hbits
    exact flows_bits bits (flows_bit hbit) hbits

theorem flows_write {k l : List Opener} {gap gap' : Bool} : ∀ (ps : List Part) {k₁ : List Opener} {gap₁ : Bool}
    {d : Draft}, Flows gap k k₁ gap₁ d → leaves k₁ gap₁ ps = some (l, gap') →
      Flows gap k l gap' (Part.write d ps)
  | [], _, _, d, hd, h => by
    cases h
    exact hd
  | p :: ps, k₁, gap₁, d, hd, h => by
    obtain ⟨⟨k₂, gap₂⟩, hp, h⟩ := Option.bind_eq_some_iff.1 h
    exact flows_write ps (hd.append (flows_part hp)) h

theorem flows_parts (p : Part) (ps : List Part) (h : leaves k gap (p :: ps) = some (l, gap')) :
    Flows gap k l gap' (Part.write p.draft ps) := by
  obtain ⟨⟨k₁, gap₁⟩, hp, h⟩ := Option.bind_eq_some_iff.1 h
  exact flows_write ps (flows_part hp) h

/-- Parts that close what they open, by their code alone. -/
theorem formed_write (p : Part) (ps : List Part) (h : leaves [] gap (p :: ps) = some ([], gap')) :
    Formed gap (Part.write p.draft ps) := (flows_parts p ps h).formed

theorem reads_write (p : Part) (ps : List Part) (h : leaves k true (p :: ps) = some (l, gap)) :
    Reads k l (Part.write p.draft ps) := (flows_parts p ps h).reads

/-! ## Names and paths -/

theorem formed_localIdentifier (name : String) (span : Span) : Formed true (localIdentifier name span) := by
  refine ⟨?_, ?_⟩
  · obtain ⟨hlead, hcode⟩ := localName_all name
    rw [Bracketed, localIdentifier_eq, String.toList_append]
    exact (bracketed_identifier hlead).append (bracketed_identifier hcode)
  · unfold localIdentifier
    split <;> simp

theorem formed_quotedName (name : String) (span : Span) : Formed true (quotedName name span) := by
  refine ⟨?_, ?_⟩
  · rw [Bracketed, code_quotedName]
    exact bracketed_quoted name
  · unfold quotedName
    split <;> simp

theorem formed_objectKey (key : String) (span : Span) : Formed true (objectKey key span) := by
  unfold objectKey
  split
  · rename_i hkey
    exact formed_name _ span (bracketed_identifier (all_of_isIdentifier hkey))
  · exact formed_quotedName key span

theorem formed_property (optional : Bool) (name : Name) : Formed false (property optional name) := by
  have hname := formed_quotedName name.text name.span
  unfold property
  split
  · rename_i hid
    have hname := formed_name name.text name.span (bracketed_identifier (all_of_isIdentifier hid))
    cases optional
    · exact formed_write (.code [.text "."]) [.term hname] rfl
    · exact formed_write (.code [.text "?."]) [.term hname] rfl
  · cases optional
    · exact formed_write (.code [.text "["]) [.term hname, .code [.text "]"]] rfl
    · exact formed_write (.code [.text "?.["]) [.term hname, .code [.text "]"]] rfl

theorem formed_reference (name : Name) : Formed true (reference b name) := by
  unfold reference
  split
  · exact formed_write (.code [.text "__glintDSL__.Globals["]) [.term (formed_quotedName _ _), .code [.text "]"]] rfl
  · exact formed_localIdentifier _ _

theorem formed_properties (optional : Bool) (names : List Name) : Formed false (names.flatMap (property optional)) :=
  formed_flatMap fun name _ => formed_property optional name

theorem formed_this (span : Span) : Formed true (Draft.name "this" "this" span) :=
  formed_name _ span (bracketed_identifier (by decide))

theorem formed_pathCode (b : Bindings) : ∀ (head : PathHead) (tail : List Name), Formed true (pathCode b head tail)
  | .this span, [] => formed_write (.code [.text "__glintRef__."]) [.term (formed_this span)] rfl
  | .this span, first :: tail =>
    formed_write (.code [.text "__glintRef__."]) [.term (formed_this span), .phrase (formed_property false first),
      .phrase (formed_properties true tail)] rfl
  | .arg name, tail =>
    formed_write (.code [.text "__glintRef__.args"]) [.phrase (formed_property false name),
      .phrase (formed_properties true tail)] rfl
  | .var name, tail => (formed_reference b name).append (formed_properties _ tail)

theorem formed_path (p : Path) : Formed true (path b p) := (formed_pathCode b p.head p.tail).node _ _

theorem formed_tagPath (tag : String) (span : Span) : Formed true (tagPath b tag span) := by
  refine Formed.node ?_ _ _
  split
  · exact formed_nil
  · exact formed_pathCode b _ _

/-! ## Calls -/

/-- A call whose parts are formed. -/
structure CallDraft.Formed (c : CallDraft) : Prop where
  callee : Draft.Formed true c.callee
  params : ∀ d ∈ c.params, Draft.Formed true d
  pairs : ∀ d ∈ c.pairs, Draft.Formed true d

namespace CallDraft.Formed

variable {c : CallDraft}

theorem named (h : c.Formed) : Draft.Formed false c.named := by
  have hpairs : Draft.Formed true (c.pairs.flatMap (· ++ [Piece.text ", "])) :=
    (Flows.flatMap fun d hd => ((h.pairs d hd).flows []).append (flows_text rfl)).formed
  exact (formed_write (.code [.text "\x7b "])
    [.term hpairs, .code [.text "...__glintDSL__.NamedArgsMarker \x7d"]] rfl).node _ _

theorem args (h : c.Formed) : Draft.Formed true c.args := by
  refine formed_separated rfl fun d hd => ?_
  rcases List.mem_append.1 hd with hd | hd
  · exact h.params d hd
  · split at hd
    · cases hd
    · rw [List.mem_singleton.1 hd]
      exact h.named.any true

theorem resolve (h : c.Formed) : Draft.Formed false c.resolve :=
  formed_write (.code [.text "__glintDSL__.resolve("])
    [.term h.callee, .code [.text ")("], .term h.args, .code [.text ")"]] rfl

theorem faulty (c : CallDraft) (name : String) (fault : FormFault) : Draft.Formed false (c.faulty name fault) :=
  formed_write (.phrase (formed_issue _ _)) [.code [.text "undefined"]] rfl

theorem objectLiteral (h : c.Formed) : Draft.Formed false c.objectLiteral :=
  (formed_write (.code [.text "\x7b "]) [.term (formed_separated rfl h.pairs), .code [.text " \x7d"]] rfl).node _ _

theorem choice (h : c.Formed) (use : FormUse) : Draft.Formed false (c.choice use) := by
  have hparams := h.params
  unfold CallDraft.choice
  split
  · rename_i condition yes rest heq
    rw [heq] at hparams
    have hcondition := hparams condition (by simp)
    have hyes := hparams yes (by simp)
    have hno : Draft.Formed true (rest.headD [.text "undefined"]) := by
      cases rest with
      | nil => exact formed_text rfl
      | cons no more => exact hparams no (by simp)
    split
    · exact formed_write (.code [.text "(!("]) [.term hcondition, .code [.text ") ? ("], .term hyes,
        .code [.text ") : ("], .term hno, .code [.text "))"]] rfl
    · exact formed_write (.code [.text "(("]) [.term hcondition, .code [.text ") ? ("], .term hyes,
        .code [.text ") : ("], .term hno, .code [.text "))"]] rfl
  · exact faulty _ _ _

theorem operation (h : c.Formed) {operator : String} (hop : adds [] operator = some []) :
    Draft.Formed false (c.operation operator) :=
  formed_write (.code [.text "("]) [.term (formed_separated hop h.params), .code [.text ")"]] rfl

theorem positional (use : FormUse) {otherwise : Draft} (h : Draft.Formed false otherwise) :
    Draft.Formed false (c.positional use otherwise) := by
  unfold CallDraft.positional
  split
  · exact h
  · exact faulty _ _ _

theorem formValue (h : c.Formed) (use : FormUse) : Draft.Formed false (c.formValue use) := by
  obtain ⟨name, form, imported⟩ := use
  cases form with
  | ifElse | ifNot => exact h.choice _
  | yield => exact faulty _ _ _
  | object =>
    simp only [CallDraft.formValue]
    split
    · exact faulty _ _ _
    · split
      · exact formed_text rfl
      · exact formed_write (.code [.text "("]) [.phrase h.objectLiteral, .code [.text ")"]] rfl
  | array =>
    exact positional _
      (formed_write (.code [.text "["]) [.term (formed_separated rfl h.params), .code [.text "]"]] rfl)
  | bindInvokable =>
    simp only [CallDraft.formValue]
    split
    · exact faulty _ _ _
    · split
      · exact faulty _ _ _
      · exact h.resolve
  | strictEqual | strictNotEqual | conjunction | disjunction =>
    refine positional _ ?_
    split
    · exact faulty _ _ _
    · exact h.operation (by split <;> rfl)
  | negation =>
    have hparams := h.params
    simp only [CallDraft.formValue]
    refine positional _ ?_
    split
    · rename_i value heq
      exact formed_write (.code [.text "!("]) [.term (hparams value (by simp [heq])), .code [.text ")"]] rfl
    · exact faulty _ _ _

theorem formExpression (h : c.Formed) (use : FormUse) : Draft.Formed false (c.formExpression use) := by
  unfold CallDraft.formExpression
  split
  · exact formed_write (.code [.text "(__glintDSL__.noop("]) [.term h.callee, .code [.text "), "],
      .phrase (h.formValue use), .code [.text ")"]] rfl
  · exact h.formValue use

theorem value (h : c.Formed) : ∀ use : Option FormUse, Draft.Formed false (c.value use)
  | some use => h.formExpression use
  | none => h.resolve

end CallDraft.Formed

mutual

theorem formed_expr (b : Bindings) : ∀ e : Expr, Formed true (expr b e)
  | .path p => formed_path b p
  | .literal value span => (formed_code (bracketed_literal value)).node _ _
  | .call ⟨callee, params, ⟨pairs, hashSpan⟩, span⟩ => by
    have h : CallDraft.Formed ⟨expr b callee, exprs b params, pairDrafts b pairs, hashSpan, span⟩ :=
      ⟨formed_expr b callee, formed_exprs b params, formed_pairs b pairs⟩
    exact ((h.value _).node _ _).any true

theorem formed_exprs (b : Bindings) : ∀ es : List Expr, ∀ d ∈ exprs b es, Formed true d
  | [], d, hd => by cases hd
  | e :: es, d, hd => by
    rcases List.mem_cons.1 hd with rfl | hd
    · exact formed_expr b e
    · exact formed_exprs b es d hd

theorem formed_pairs (b : Bindings) : ∀ ps : List Pair, ∀ d ∈ pairDrafts b ps, Formed true d
  | [], d, hd => by cases hd
  | ⟨key, value, span⟩ :: ps, d, hd => by
    rcases List.mem_cons.1 hd with rfl | hd
    · exact (formed_write (.term (formed_objectKey key.text key.span)) [.code [.text ": "],
        .term (formed_expr b value)] rfl).node _ _
    · exact formed_pairs b ps d hd

end

theorem formed_call (c : Call) : (call b c).Formed :=
  ⟨formed_expr b c.callee, formed_exprs b c.params, formed_pairs b c.hash.pairs⟩

theorem formed_mustacheValue (asArgument : Bool) (m : Mustache) : Formed true (mustacheValue b asArgument m) := by
  have h := formed_call b m.call
  unfold mustacheValue
  split
  · exact (h.formExpression _).any true
  · split
    · exact h.resolve.any true
    · split
      · exact formed_expr b _
      · exact formed_write (.code [.text "__glintDSL__.resolveOrReturn("])
          [.term (formed_expr b _), .code [.text ")()"]] rfl

/-! ## Comments and mustaches -/

theorem formed_comment (c : Comment) (next : Option Span) : Formed false (comment c next) := by
  unfold comment
  split
  · exact formed_nil
  · exact formed_issue _ _
  · exact formed_directive _ _ _
  · exact formed_directive _ _ _

theorem formed_mention (use : FormUse) {callee : Draft} (h : Formed true callee) :
    Formed false (mention depth use callee) := by
  unfold mention
  split
  · exact formed_write (.code [.text "__glintDSL__.noop("]) [.term h, .code [.text ");", .line depth]] rfl
  · exact formed_nil

theorem formed_yieldTarget (use : FormUse) (pairs : List Pair) : Formed false (yieldTarget use pairs) := by
  unfold yieldTarget
  split
  · exact formed_text rfl
  · split
    · exact (formed_code (bracketed_quoted _)).node _ _
    · exact formed_write (.phrase (formed_issue _ _)) [.code [.text "\"default\""]] rfl

theorem formed_params (es : List Expr) : Formed true (Draft.separated ", " (exprs b es)) :=
  formed_separated rfl (formed_exprs b es)

theorem formed_yieldStatement (use : FormUse) (c : Call) : Formed false (yieldStatement b depth use c) :=
  (formed_write (.phrase (formed_mention depth use (formed_expr b c.callee)))
    [.code [.text "__glintDSL__.yieldToBlock(__glintRef__, "], .phrase (formed_yieldTarget use c.hash.pairs),
      .code [.text ")("], .term (formed_params b c.params), .code [.text ");"]] rfl).node _ _

theorem formed_mustacheStatement (m : Mustache) : Formed false (mustacheStatement b depth m) := by
  unfold mustacheStatement
  split
  · exact formed_yieldStatement b depth _ m.call
  · exact (formed_write (.code [.text "__glintDSL__.emitContent("])
      [.term (formed_mustacheValue b false m), .code [.text ");"]] rfl).node _ _

/-! ## Quoted values

A quoted value is a template literal. Its texts are read as such, and not as code; one that ends with a
dollar sign must not be followed by a brace, which is why no text may follow another. -/

theorem scan_concatPart (b : Bindings) (fs : List Code.Frame) (next : List Char) {m : Code.Mode}
    (hm : InLiteral m) : ∀ part : ConcatPart, (∀ t, part = .text t → m = .literal) →
      ∃ m', InLiteral m' ∧ ((∀ t, part ≠ .text t) → m' = .literal) ∧
        Code.scan ⟨m, fs⟩ ((code (concatPart b part)).toList ++ next) = Code.scan ⟨m', fs⟩ next
  | .text t, htext => by
    obtain ⟨m', hm', hread⟩ := scan_literalText fs next t.chars.toList (.inl (htext t rfl))
    refine ⟨m', hm', fun hnot => absurd rfl (hnot t), ?_⟩
    rwa [concatPart, code, codeOf, code, String.append_empty, String.toList_ofList]
  | .mustache n, _ => by
    have hvalue := ((formed_mustacheValue b false n).node "MustacheStatement" n.span).bracketed
    refine ⟨.literal, .inl rfl, fun _ => rfl, ?_⟩
    rw [concatPart, code_append, code_append, String.toList_append, String.toList_append,
      List.append_assoc, List.append_assoc]
    exact (scan_hole hm fs _).trans (hvalue _ _)

/-- The parts of a quoted value are read in a template literal, and leave it open. -/
theorem scan_concatParts (b : Bindings) (fs : List Code.Frame) (next : List Char) :
    ∀ {parts : List ConcatPart} {m : Code.Mode}, Parted parts → InLiteral m →
      (∀ t rest, parts = .text t :: rest → m = .literal) →
        ∃ m', InLiteral m' ∧ Code.scan ⟨m, fs⟩ ((code (parts.flatMap (concatPart b))).toList ++ next) =
          Code.scan ⟨m', fs⟩ next
  | [], m, _, hm, _ => ⟨m, hm, rfl⟩
  | part :: parts, m, hparted, hm, hstart => by
    rw [List.flatMap_cons, code_append, String.toList_append, List.append_assoc]
    obtain ⟨m₁, hm₁, hliteral, hread₁⟩ := scan_concatPart b fs
      ((code (parts.flatMap (concatPart b))).toList ++ next) hm part fun t ht => hstart t parts (ht ▸ rfl)
    have hrest : Parted parts ∧ ∀ t rest, parts = .text t :: rest → m₁ = .literal := by
      cases part with
      | text t =>
        cases parts with
        | nil => exact ⟨trivial, fun _ _ h => nomatch h⟩
        | cons p ps =>
          cases p with
          | text t' => exact hparted.elim
          | mustache n => exact ⟨hparted, fun _ _ h => nomatch h⟩
      | mustache n => exact ⟨hparted, fun _ _ _ => hliteral fun _ h => nomatch h⟩
    obtain ⟨m', hm', hread⟩ := scan_concatParts b fs next hrest.1 hm₁ hrest.2
    exact ⟨m', hm', hread₁.trans hread⟩

theorem spaced_concatPart (b : Bindings) : ∀ p : ConcatPart, Spaced false (concatPart b p)
  | .text t => by simp [concatPart]
  | .mustache m => by simp [concatPart, (formed_mustacheValue b false m).spaced]

theorem formed_attrValue (b : Bindings) (asArgument : Bool) :
    ∀ value : AttrValue, value.Neat → Formed true (attrValue b asArgument value)
  | .text _, _ => (formed_code (bracketed_quoted _)).node _ _
  | .mustache m, _ => (formed_mustacheValue b asArgument m).node _ _
  | .concat parts span, hneat => by
    refine Formed.node ⟨?_, ?_⟩ _ _
    · intro fs next
      obtain ⟨m, hm, hread⟩ := scan_concatParts b fs ('`' :: next) hneat (.inl rfl) fun _ _ _ => rfl
      rw [code_append, code_append, String.toList_append, String.toList_append, List.append_assoc,
        List.append_assoc]
      refine Eq.trans (b := Code.scan ⟨m, fs⟩ ('`' :: next)) hread ?_
      rcases hm with rfl | rfl <;> rfl
    · simp [Spaced.flatMap fun p (_ : p ∈ parts) => spaced_concatPart b p]

/-! ## Opening tags -/

theorem formed_attrProperty (asArgument : Bool) (name : Name) {a : Attribute} (h : a.value.Neat) :
    Formed true (attrProperty b asArgument name a) :=
  (formed_write (.term (formed_objectKey name.text name.span)) [.code [.text ": "],
    .term (formed_attrValue b asArgument a.value h)] rfl).node _ _

theorem formed_arguments (h : ∀ a ∈ attributes, a.value.Neat) : Formed false (arguments b attributes) := by
  have hproperties : Formed true ((attributes.filter (·.isArgument)).flatMap fun a =>
      attrProperty b true (withoutSigil a.name) a ++ [Piece.text ", "]) :=
    (Flows.flatMap fun a ha => ((formed_attrProperty b true _ (h a (List.mem_of_mem_filter ha))).flows []).append
      (flows_text rfl)).formed
  exact formed_write (.code [.text "\x7b "])
    [.term hproperties, .code [.text "...__glintDSL__.NamedArgsMarker \x7d"]] rfl

theorem formed_splattributes (a : Attribute) : Formed false (splattributes depth a) := by
  have hissue : Formed false (if a.isValueless then [] else [.issue .splattributesValue a.span]) := by
    split
    · exact formed_nil
    · exact formed_issue _ _
  exact formed_write (.phrase hissue) [.code [.line depth], .phrase ((formed_text rfl).node _ _)] rfl

theorem formed_attributeObject (h : ∀ a ∈ attributes, a.value.Neat) :
    Formed false (attributeObject b depth attributes) := by
  unfold attributeObject
  split
  · exact formed_nil
  · have hbody : Formed false (attributes.flatMap fun a =>
        [line (depth + 1)] ++ attrProperty b false a.name a ++ [Piece.text ","]) :=
      formed_flatMap fun a ha => formed_write (.code [.line (depth + 1)])
        [.term (formed_attrProperty b false a.name (h a ha)), .code [.text ","]] rfl
    exact formed_write (.code [.line depth, .text "__glintDSL__.applyAttributes(__glintY__.element, \x7b"])
      [.phrase hbody, .code [.line depth, .text "\x7d);"]] rfl

theorem formed_modifier (c : Call) : Formed false (modifier b c) := by
  have hcall := formed_call b c
  unfold modifier
  split
  · exact (formed_issue _ _).append
      ((formed_write (.code [.text "["]) [.term hcall.args, .code [.text "];"]] rfl).node _ _)
  · have hargs : Formed false (if (call b c).hasArguments then [Piece.text ", "] ++ (call b c).args else []) := by
      split
      · exact formed_write (.code [.text ", "]) [.term hcall.args] rfl
      · exact formed_nil
    exact (formed_write (.code [.text "__glintDSL__.applyModifier(__glintDSL__.resolve("]) [.term hcall.callee,
      .code [.text ")(__glintY__.element"], .phrase hargs, .code [.text "));"]] rfl).node _ _

theorem formed_tagComments : ∀ parts : List TagPart, Formed false (tagComments parts)
  | [] => formed_nil
  | .comment c :: rest => (formed_comment c _).append (formed_tagComments rest)
  | .attr _ :: rest => formed_tagComments rest
  | .modifier _ :: rest => formed_tagComments rest

theorem formed_openTag (h : ∀ a ∈ t.attributes, a.value.Neat) : Formed false (t.draft b depth) := by
  refine (((formed_tagComments t.parts).append ?_).append (formed_attributeObject b depth h)).append ?_
  · exact formed_flatMap fun a _ => formed_splattributes depth a
  · exact formed_flatMap fun m _ => (formed_line depth).append (formed_modifier b m)

/-! ## Bodies -/

theorem formed_paramPattern (checked : Bool) (params : List Name) : Formed false (paramPattern checked params) := by
  have hnames : Formed true (Draft.separated ", " (params.map fun p =>
      (if checked && !isIdentifier p.text then [Piece.issue (.invalidParam p.text) p.span] else []) ++
        localIdentifier p.text p.span)) := by
    refine formed_separated rfl fun d hd => ?_
    obtain ⟨p, -, rfl⟩ := List.mem_map.1 hd
    have hname := formed_localIdentifier p.text p.span
    split
    · refine ⟨hname.bracketed, ?_⟩
      simpa using hname.spaced
    · exact hname
  exact formed_write (.code [.text "const ["]) [.term hnames, .code [.text "] = "]] rfl

theorem formed_blockContents {name : Draft} (params : List Name) (hname : Formed true name)
    (hbody : Formed false body) : Formed false (blockContents depth name params body) :=
  formed_write (.code [.line depth, .text "\x7b", .line (depth + 1)]) [.phrase (formed_paramPattern true params),
    .code [.text "__glintY__.blockParams["], .term hname, .code [.text "];"], .phrase (hbody.within params),
    .code [.line depth, .text "\x7d"]] rfl

theorem formed_placeholderArm (params : List Name) (hbody : Formed false body) :
    Formed false (placeholderArm depth params body) := by
  have hpattern : Formed false (if params.isEmpty then []
      else [line (depth + 1)] ++ paramPattern false params ++ [Piece.text "[] as any[];"]) := by
    split
    · exact formed_nil
    · exact formed_write (.code [.line (depth + 1)])
        [.phrase (formed_paramPattern false params), .code [.text "[] as any[];"]] rfl
  exact formed_write (.code [.line depth, .text "\x7b"])
    [.phrase hpattern, .phrase (hbody.within params), .code [.line depth, .text "\x7d"]] rfl

theorem formed_condition (use : FormUse) (c : Call) : Formed true (condition b use c) := by
  unfold condition
  split
  · exact formed_expr b _
  · exact formed_write (.phrase (formed_issue _ _)) [.code [.text "undefined"]] rfl

theorem formed_ifBlock (use : FormUse) (c : Call) {inverse : Option Draft} (hbody : Formed false body)
    (hinverse : ∀ d ∈ inverse, Formed false d) : Formed false (ifBlock b depth use c body inverse) := by
  have hmention : Formed false _ := formed_mention depth use (formed_expr b c.callee)
  have hcondition := formed_condition b use c
  refine Formed.node (Formed.append ?_ ?_) _ _
  · split
    · exact formed_write (.phrase hmention) [.code [.text "if (!("], .term hcondition, .code [.text ")) \x7b"],
        .phrase hbody, .code [.line depth, .text "\x7d"]] rfl
    · exact formed_write (.phrase hmention) [.code [.text "if (("], .term hcondition, .code [.text ")) \x7b"],
        .phrase hbody, .code [.line depth, .text "\x7d"]] rfl
  · cases inverse with
    | none => exact formed_nil
    | some other =>
      exact formed_write (.code [.text " else \x7b"])
        [.phrase (hinverse other rfl), .code [.line depth, .text "\x7d"]] rfl

theorem formed_placeholderBlock (c : Call) {arms : Draft} (harms : Formed false arms) :
    Formed false (placeholderBlock b depth c arms) :=
  (formed_write (.code [.text "\x7b", .line (depth + 1), .text "["]) [.term (formed_call b c).args, .code [.text "];"],
    .phrase harms, .code [.line depth, .text "\x7d"]] rfl).node _ _

theorem formed_componentBlock (c : Call) {arms : Draft} (harms : Formed false arms) :
    Formed false (componentBlock b depth c arms) :=
  (formed_write (.code [.text "\x7b", .line (depth + 1), .text "const __glintY__ = __glintDSL__.emitComponent("])
    [.phrase (formed_call b c).resolve, .code [.text ");"], .phrase harms, .code [.line depth, .text "\x7d"]]
    rfl).node _ _

/-! ## Elements -/

theorem formed_bareUse (t : OpenTag) : Formed false (if t.isUsed then [] else bareUse depth) := by
  split
  · exact formed_nil
  · exact formed_write (.code [.line depth, .text "__glintY__;"]) [] rfl

theorem formed_plainElement (tag : Name) (span : Span) (ht : ∀ a ∈ t.attributes, a.value.Neat)
    (hbody : Formed false body) : Formed false (plainElement b depth tag span t body) :=
  (formed_write (.code [.text "\x7b", .line (depth + 1), .text "const __glintY__ = __glintDSL__.emitElement("])
    [.term (formed_quotedName tag.text tag.span), .code [.text ");"], .phrase (formed_openTag b (depth + 1) ht),
      .phrase (formed_bareUse (depth + 1) t), .phrase hbody, .code [.line depth, .text "\x7d"]] rfl).node _ _

theorem formed_componentElement (tag : Name) (span : Span) (closeTag : Option Span) {blocks : Option Draft}
    (hattributes : ∀ a ∈ attributes, a.value.Neat) (ht : ∀ a ∈ t.attributes, a.value.Neat)
    (hblocks : ∀ d ∈ blocks, Formed false d) :
    Formed false (componentElement b depth tag span attributes t closeTag blocks) := by
  refine (formed_write (.code [.text "\x7b", .line (depth + 1),
      .text "const __glintY__ = __glintDSL__.emitComponent(__glintDSL__.resolve("])
    [.term (formed_tagPath b tag.text tag.span), .code [.text ")("], .phrase (formed_arguments b hattributes),
      .code [.text "));"], .phrase (formed_openTag b (depth + 1) ht), .phrase ?inside, .phrase ?close,
      .code [.line depth, .text "\x7d"]] rfl).node _ _
  case inside =>
    cases blocks with
    | some d => exact hblocks d rfl
    | none => exact formed_bareUse (depth + 1) t
  case close =>
    cases closeTag with
    | some close =>
      exact formed_write (.code [.line (depth + 1)]) [.term (formed_tagPath b tag.text close), .code [.text ";"]] rfl
    | none => exact formed_nil

theorem formed_strayNamedBlock (span : Span) (hbody : Formed false body) :
    Formed false (strayNamedBlock depth span body) :=
  (formed_issue _ _).append
    ((formed_write (.code [.text "\x7b"]) [.phrase hbody, .code [.line depth, .text "\x7d"]] rfl).node _ _)

theorem neat_of_openTag {parts : List TagPart} {modifiers : List Call} {component : Bool}
    (h : ∀ a ∈ attributes, a.value.Neat) :
    ∀ a ∈ (OpenTag.of parts attributes modifiers component).attributes, a.value.Neat :=
  fun a ha => h a (List.mem_of_mem_filter ha)

/-! ## Statements -/

mutual

theorem formed_statements (b : Bindings) (depth : Nat) {closed : Bool} :
    ∀ {ss : List Statement}, statementsNeat closed ss → Formed false (statements b depth ss)
  | [], _ => formed_nil
  | _ :: rest, ⟨hs, hrest⟩ =>
    (formed_statement b depth (nextSignificant rest) hs).append (formed_statements b depth hrest)

theorem formed_statement (b : Bindings) (depth : Nat) (next : Option Span) {closed : Bool} :
    ∀ {s : Statement}, s.Neat closed → Formed false (statement b depth next s)
  | .text t, _ => by
    rw [statement]
    exact ⟨Code.bracketed_nil, by simp [spaced_cons, spacedOf_mark, Mapping.Label.isName]⟩
  | .comment _, _ => formed_nil
  | .mustacheComment c, _ => formed_comment c next
  | .mustache m, _ => (formed_line depth).append (formed_mustacheStatement b depth m)
  | .block ⟨c, ⟨body, params, _, _⟩, _, _, _⟩, ⟨_, hbody, hinverse⟩ => by
    have hline : Formed false [line depth] := formed_line depth
    have harm (depth' : Nat) := formed_statements (b.enter params) depth' hbody
    rw [statement]
    split
    · exact hline.append (formed_componentBlock b depth c
        ((formed_blockContents _ params (formed_text rfl) (harm _)).append (formed_elseArm b _ hinverse)))
    · split
      · exact hline.append (formed_ifBlock b depth _ c ((harm _).within params) (formed_elseBody b _ hinverse))
      · exact (hline.append (formed_issue _ _)).append (formed_placeholderBlock b depth c
          ((formed_placeholderArm _ params (harm _)).append (formed_placeholderElse b _ hinverse)))
  | .element ⟨tag, _, _, _, params, _, _, close, span⟩, ⟨h, hchildren⟩ => by
    have hline : Formed false [line depth] := formed_line depth
    rw [statement]
    dsimp only
    split
    · exact hline.append (formed_strayNamedBlock depth span (formed_statements b _ hchildren))
    · split
      · refine hline.append (formed_componentElement b depth tag span close h.values
          (neat_of_openTag h.values) fun d hd => ?_)
        split at hd
        · cases hd
        · split at hd
          · cases hd
            exact formed_namedBlocks b _ hchildren
          · cases hd
            exact formed_blockContents _ params (formed_text rfl) (formed_statements (b.enter params) _ hchildren)
      · exact hline.append (formed_plainElement b depth tag span (neat_of_openTag h.values)
          (formed_statements b _ hchildren))

theorem formed_elseArm (b : Bindings) (depth : Nat) :
    ∀ {inverse : Option Arm}, inverseNeat inverse → Formed false (elseArm b depth inverse)
  | none, _ => formed_nil
  | some ⟨_, params, _, _⟩, h =>
    formed_blockContents depth params (formed_text rfl) (formed_statements (b.enter params) (depth + 1) h.1)

theorem formed_elseBody (b : Bindings) (depth : Nat) :
    ∀ {inverse : Option Arm}, inverseNeat inverse → ∀ d ∈ elseBody b depth inverse, Formed false d
  | none, _, _, hd => nomatch hd
  | some ⟨body, _, _, _⟩, h, d, hd => by
    have hd : statements b depth body = d := by simpa [elseBody] using hd
    rw [← hd]
    exact formed_statements b depth h.1

theorem formed_placeholderElse (b : Bindings) (depth : Nat) :
    ∀ {inverse : Option Arm}, inverseNeat inverse → Formed false (placeholderElse b depth inverse)
  | none, _ => formed_nil
  | some ⟨_, params, _, _⟩, h =>
    formed_placeholderArm depth params (formed_statements (b.enter params) (depth + 1) h.1)

theorem formed_namedBlocks (b : Bindings) (depth : Nat) {closed : Bool} :
    ∀ {ss : List Statement}, statementsNeat closed ss → Formed false (namedBlocks b depth ss)
  | [], _ => formed_nil
  | .element ⟨_, _, _, _, params, _, _, _, _⟩ :: rest, ⟨⟨_, hchildren⟩, hrest⟩ => by
    rw [namedBlocks]
    refine Formed.append ?_ (formed_namedBlocks b depth hrest)
    split
    · exact Formed.node (formed_blockContents depth params (formed_quotedName _ _)
        (formed_statements (b.enter params) (depth + 1) hchildren)) _ _
    · exact formed_issue _ _
  | .mustacheComment c :: rest, ⟨_, hrest⟩ =>
    (formed_comment c _).append (formed_namedBlocks b depth hrest)
  | .comment _ :: rest, ⟨_, hrest⟩ => by
    rw [namedBlocks]
    exact formed_namedBlocks b depth hrest
  | .text t :: rest, ⟨_, hrest⟩ => by
    rw [namedBlocks]
    refine Formed.append ?_ (formed_namedBlocks b depth hrest)
    split
    · exact formed_nil
    · exact formed_issue _ _
  | .mustache m :: _, ⟨_, hrest⟩ =>
    (formed_issue .mixedNamedBlocks m.span).append (formed_namedBlocks b depth hrest)
  | .block ⟨_, _, _, _, span⟩ :: _, ⟨_, hrest⟩ =>
    (formed_issue .mixedNamedBlocks span).append (formed_namedBlocks b depth hrest)

end

end Emit

end TypedTemplate
