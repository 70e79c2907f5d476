/-
Statements write their occurrences, and each body declares its parameters where its code starts. The
conditional body is the only one that starts with a statement: what the statement starts with is then no
declaration, so the block declares nothing.
-/
import TypedTemplate.Proofs.Emit.Written

namespace TypedTemplate

open Code (Opener)
open Draft Template

namespace Emit

variable {outer : List Binder} {u : Occurrence} {a : Attribute} {attributes : List Attribute} {t : OpenTag}
  {body : Draft} (p : Place) (depth : Nat)

/-! ## Mustaches -/

theorem plain_mention {e : Draft} (use : FormUse) (callee : Draft) (he : Draft.Plain e) :
    Draft.Plain (mention depth use callee ++ e) := by
  unfold mention
  split
  · have hlead : Draft.Plain [.text "__glintDSL__.noop("] := plain_text rfl
    exact ((hlead.append _).append _).append _
  · exact he

theorem plain_mustacheStatement (b : Bindings) (depth : Nat) (m : Mustache) :
    Draft.Plain (mustacheStatement b depth m) := by
  unfold mustacheStatement
  split
  · have hlead : Draft.Plain [.text "__glintDSL__.yieldToBlock(__glintRef__, "] := plain_text rfl
    refine Plain.node ?_ _ _
    exact ((((plain_mention depth _ _ hlead).append _).append _).append _).append _
  · have hlead : Draft.Plain [.text "__glintDSL__.emitContent("] := plain_text rfl
    exact ((hlead.append _).append _).node _ _

theorem writes_yieldStatement (use : FormUse) (c : Call) (hu : u ∈ (Occurrence.ofExprs p c.params).flatten)
    (hw : u.place.written = true) : Writes true p.binders (yieldStatement p.bindings depth use c) u := by
  obtain ⟨d, hd, hwrites⟩ := (writes_exprs p c.params).exists hu hw
  have hparams : Writes false p.binders (Draft.separated ", " (exprs p.bindings c.params)) u :=
    Writes.separated rfl hd hwrites fun e he => ⟨(formed_exprs p.bindings c.params e he).bracketed, nofun⟩
  have hfront := reads_write (k := []) (.phrase (formed_mention depth use (formed_expr p.bindings c.callee)))
    [.code [.text "__glintDSL__.yieldToBlock(__glintRef__, "], .phrase (formed_yieldTarget use c.hash.pairs),
      .code [.text ")("]] rfl
  have hplain : Draft.Plain [.text "__glintDSL__.yieldToBlock(__glintRef__, "] := plain_text rfl
  refine Writes.node (Writes.left (hparams.after true hfront (by decide) fun _ => ?_) _) _ _
  exact ((plain_mention depth use _ hplain).append _).append _

theorem writes_mustacheStatement (m : Mustache) (hu : u ∈ Occurrence.ofContent p m) (hw : u.place.written = true) :
    Writes true p.binders (mustacheStatement p.bindings depth m) u := by
  unfold mustacheStatement
  unfold Occurrence.ofContent at hu
  split
  · rename_i name imported hform
    rw [hform] at hu
    rcases List.mem_append.1 hu with hu | hu
    · exact writes_yieldStatement p depth _ m.call hu hw
    · exact absurd hw (not_written_of_mem_dropped hu)
  · rename_i hform
    have hu : u ∈ Occurrence.ofMustache p m := by
      split at hu
      · rename_i name imported hyield
        exact absurd hyield (hform name imported)
      · exact hu
    have hlead : Reads [] [.paren] [.text "__glintDSL__.emitContent("] := reads_text rfl
    have hplain : Draft.Plain [.text "__glintDSL__.emitContent("] := plain_text rfl
    exact Writes.node (Writes.left ((writes_mustacheValue p false m hu hw).after true hlead (by decide)
      fun _ => hplain) _) _ _

/-! ## Opening tags -/

theorem parted_left : ∀ (front : List ConcatPart) {back : List ConcatPart},
    Parted (front ++ back) → Parted front
  | [], _, _ => trivial
  | [.text _], _, _ => trivial
  | .text _ :: .text _ :: _, _, h => h
  | .text _ :: .mustache m :: front, _, h => parted_left (.mustache m :: front) h
  | .mustache _ :: front, _, h => parted_left front h

/-- A quoted value up to one of its expressions. -/
theorem reads_concat (b : Bindings) {front : List ConcatPart} (h : Parted front) :
    Reads [] [.hole] ([Piece.text "`"] ++ front.flatMap (concatPart b) ++ [Piece.text "$\x7b"]) := by
  intro fs base next hfs
  rw [List.map_eq_nil_iff.1 hfs, List.nil_append]
  obtain ⟨m, hm, hread⟩ := scan_concatParts b base ("$\x7b".toList ++ next) h (.inl rfl) fun _ _ _ => rfl
  refine ⟨[⟨.hole, next⟩], rfl, ?_⟩
  rw [code_append, code_append, String.toList_append, String.toList_append, List.append_assoc,
    List.append_assoc]
  exact Eq.trans hread (scan_hole hm base next)

theorem writes_attrValue (asArgument : Bool) {value : AttrValue} (hneat : value.Neat)
    (hu : u ∈ Occurrence.ofValue p value) (hw : u.place.written = true) :
    Writes false p.binders (attrValue p.bindings asArgument value) u := by
  cases value with
  | text t => cases hu
  | mustache m => exact (writes_mustacheValue p asArgument m hu hw).node _ _
  | concat parts span =>
    obtain ⟨part, hpart, hmem⟩ := List.mem_flatMap.1 hu
    obtain ⟨front, back, rfl⟩ := List.append_of_mem hpart
    cases part with
    | text t => cases hmem
    | mustache m =>
      have hvalue := (writes_mustacheValue p false m hmem hw).node "MustacheStatement" m.span
      have hfront := reads_concat p.bindings (parted_left front hneat)
      have hsplit : [Piece.text "`"] ++ (front ++ .mustache m :: back).flatMap (concatPart p.bindings) ++
            [Piece.text "`"] =
          [Piece.text "`"] ++ front.flatMap (concatPart p.bindings) ++ [Piece.text "$\x7b"] ++
            (Draft.node "MustacheStatement" m.span (mustacheValue p.bindings false m)) ++
              ([Piece.text "\x7d"] ++ back.flatMap (concatPart p.bindings) ++ [Piece.text "`"]) := by
        simp [List.flatMap_append, concatPart]
      refine Writes.node ?_ _ _
      rw [hsplit]
      exact Writes.left (hvalue.after false hfront (by decide) fun h => absurd h Bool.false_ne_true) _

theorem plain_attrProperty (b : Bindings) (asArgument : Bool) (name : Name) (a : Attribute) :
    Draft.Plain (attrProperty b asArgument name a) :=
  ((plain_objectKey name.text name.span).append _).node _ _

theorem writes_attrProperty (asArgument : Bool) (name : Name) (hneat : a.value.Neat)
    (hu : u ∈ Occurrence.ofValue p a.value) (hw : u.place.written = true) :
    Writes true p.binders (attrProperty p.bindings asArgument name a) u := by
  have hkey := reads_write (k := []) (.term (formed_objectKey name.text name.span)) [.code [.text ": "]] rfl
  exact Writes.node ((writes_attrValue p asArgument hneat hu hw).after true hkey List.not_mem_nil
    fun _ => plain_objectKey name.text name.span) _ _

theorem writes_arguments (hneat : ∀ a ∈ attributes, a.value.Neat) (ha : a ∈ attributes) (harg : a.isArgument = true)
    (hu : u ∈ Occurrence.ofValue p a.value) (hw : u.place.written = true) :
    Writes false p.binders (arguments p.bindings attributes) u := by
  have hmem : a ∈ attributes.filter (·.isArgument) := List.mem_filter.2 ⟨ha, harg⟩
  have hproperties : Writes true p.binders ((attributes.filter (·.isArgument)).flatMap fun a =>
      attrProperty p.bindings true (withoutSigil a.name) a ++ [Piece.text ", "]) u := by
    refine Writes.flatMap hmem (Writes.left (writes_attrProperty p true _ (hneat a ha) hu hw) _) ?_
    intro a' ha'
    have hneat' := hneat a' (List.mem_of_mem_filter ha')
    exact ⟨(formed_attrProperty p.bindings true _ hneat').bracketed.append (bracketed_text rfl),
      fun _ => (plain_attrProperty _ _ _ a').append _⟩
  exact Writes.left (hproperties.object false [.text "\x7b "] [] [' '] rfl
    (Code.bracketed_nil.reads []) List.not_mem_nil (List.all_eq_true.1 (by decide)) nofun) _

theorem writes_splattributes (hu : u ∈ Occurrence.ofValue p a.value) :
    Writes false p.binders (splattributes depth a) u := by
  unfold splattributes
  split
  · rename_i hvalueless
    unfold Attribute.isValueless at hvalueless
    split at hvalueless
    · rename_i t ht
      rw [ht] at hu
      cases hu
    · cases hvalueless
  · exact .of_issues (List.cons_ne_nil _ _)

theorem writes_attributeObject (hneat : ∀ a ∈ attributes, a.value.Neat) (ha : a ∈ attributes)
    (hu : u ∈ Occurrence.ofValue p a.value) (hw : u.place.written = true) :
    Writes false p.binders (attributeObject p.bindings depth attributes) u := by
  have hproperties : Writes true p.binders (attributes.flatMap fun a =>
      [line (depth + 1)] ++ attrProperty p.bindings false a.name a ++ [Piece.text ","]) u := by
    refine Writes.flatMap ha (Writes.left ((writes_attrProperty p false a.name (hneat a ha) hu hw).line
      (depth + 1)) _) ?_
    intro a' ha'
    exact ⟨((bracketed_line _).append (formed_attrProperty p.bindings false _ (hneat a' ha')).bracketed).append
      (bracketed_text rfl), fun _ => ((plain_attrProperty _ _ _ a').line _).append _⟩
  have hlead : Reads [] [.paren] [line depth, .text "__glintDSL__.applyAttributes(__glintY__.element, "] :=
    reads_write (.code [.line depth, .text "__glintDSL__.applyAttributes(__glintY__.element, "]) [] rfl
  have hcode : (code [line depth, .text "__glintDSL__.applyAttributes(__glintY__.element, \x7b"]).toList =
      (code [line depth, .text "__glintDSL__.applyAttributes(__glintY__.element, "]).toList ++ ['{'] := by
    simp [code, codeOf, line]
  rw [attributeObject, if_neg (by rw [List.isEmpty_iff]; exact List.ne_nil_of_mem ha)]
  exact Writes.left (hproperties.object false _ _ [] hcode hlead (by decide) (by simp)
    fun h => absurd h Bool.false_ne_true) _

theorem writes_ofCall {c : Call} (hu : u ∈ Occurrence.ofCall p c) (hw : u.place.written = true) :
    ((p.bindings.formOf? c.callee).isNone = true ∧
        Writes false p.binders (call p.bindings c).callee u) ∨
      (call p.bindings c).Passes p.binders u := by
  rcases List.mem_append.1 hu with hu | hu
  · split at hu
    · rename_i hform
      exact .inl ⟨hform, writes_expr p c.callee hu hw⟩
    · cases hu
  · exact .inr (passes_of_mem p hu hw)

theorem writes_modifier (c : Call) (hu : u ∈ Occurrence.ofCall p c) (hw : u.place.written = true) :
    Writes false p.binders (modifier p.bindings c) u := by
  have h := keyed_call p.bindings c
  unfold modifier
  split
  · exact .of_issues (List.cons_ne_nil _ _)
  · refine Writes.node ?_ _ _
    rcases writes_ofCall p hu hw with ⟨-, hcallee⟩ | hpass
    · exact (((hcallee.behind (.code [.text "__glintDSL__.applyModifier(__glintDSL__.resolve("]) [] rfl).left
        _).left _).left _
    · have hhas : (call p.bindings c).hasArguments = true := by
        rcases hpass with ⟨d, hd, -⟩ | ⟨d, hd, -⟩
        · simp [CallDraft.hasArguments, List.ne_nil_of_mem hd]
        · simp [CallDraft.hasArguments, List.ne_nil_of_mem hd]
      have hargs := (h.writes_args hpass).behind (.code [.text ", "]) [] rfl
      rw [if_pos hhas]
      exact (hargs.behind (.code [.text "__glintDSL__.applyModifier(__glintDSL__.resolve("])
        [.term h.callee, .code [.text ")(__glintY__.element"]] rfl).left _

theorem writes_openTag (hneat : ∀ a ∈ t.attributes, a.value.Neat)
    (hu : (∃ a ∈ t.splats ++ t.attributes, u ∈ Occurrence.ofValue p a.value) ∨
      ∃ m ∈ t.modifiers, u ∈ Occurrence.ofCall p m)
    (hw : u.place.written = true) : Writes false p.binders (t.draft p.bindings depth) u := by
  have hcomments := formed_tagComments t.parts
  have hsplats : Formed false (t.splats.flatMap (splattributes depth)) :=
    formed_flatMap fun a _ => formed_splattributes depth a
  rcases hu with ⟨a, ha, hu⟩ | ⟨m, hm, hu⟩
  · rcases List.mem_append.1 ha with ha | ha
    · have hwrites : Writes false p.binders (t.splats.flatMap (splattributes depth)) u :=
        Writes.flatMap ha (writes_splattributes p depth hu) fun a' _ =>
          ⟨(formed_splattributes depth a').bracketed, nofun⟩
      exact ((hwrites.behind (.phrase hcomments) [] rfl).left _).left _
    · exact ((writes_attributeObject p depth hneat ha hu hw).behind (.phrase hcomments) [.phrase hsplats] rfl).left _
  · have hmodifier : Writes false p.binders (line depth :: modifier p.bindings m) u :=
      (writes_modifier p m hu hw).behind (.code [.line depth]) [] rfl
    have hwrites : Writes false p.binders
        (t.modifiers.flatMap fun m => line depth :: modifier p.bindings m) u :=
      Writes.flatMap hm hmodifier fun m' _ =>
        ⟨((formed_line depth).append (formed_modifier p.bindings m')).bracketed, nofun⟩
    exact hwrites.behind (.phrase hcomments)
      [.phrase hsplats, .phrase (formed_attributeObject p.bindings depth hneat)] rfl

/-! ## Blocks -/

theorem code_separated (separator : String) : ∀ ds : List Draft,
    (code (Draft.separated separator ds)).toList =
      separator.toList.intercalate (ds.map fun d => (code d).toList)
  | [] => rfl
  | [d] => by simp [Draft.separated, List.intercalate]
  | d :: e :: ds => by
    rw [Draft.separated, code_append, code_append, String.toList_append, String.toList_append,
      code_separated separator (e :: ds)]
    · simp [code, codeOf, List.intercalate]
    · exact List.cons_ne_nil _ _

theorem localText_toList (name : String) :
    (localText name).toList ≠ [] ∧ ∀ c ∈ (localText name).toList, isIdentifierChar c = true := by
  obtain ⟨hlead, hcode⟩ := localName_all name
  rw [localText, String.toList_append]
  constructor
  · unfold localName
    split
    · simp
    · split
      · rename_i hname
        intro hnil
        rw [isIdentifier, (List.append_eq_nil_iff.1 hnil).2] at hname
        cases hname
      · simp
  · intro c hc
    rcases List.mem_append.1 hc with hc | hc
    · exact List.all_eq_true.1 hlead c hc
    · exact List.all_eq_true.1 hcode c hc

/-- A body with parameters opens with their declaration. -/
theorem enters_params (params : List Name) :
    Enters (params.map fun p => localText p.text) []
      ([line depth, .text "\x7b", line (depth + 1)] ++ paramPattern true params) := by
  have hnames : (code (Draft.separated ", " (params.map fun p =>
      (if true && !isIdentifier p.text then [Piece.issue (.invalidParam p.text) p.span] else []) ++
        localIdentifier p.text p.span))).toList =
      [',', ' '].intercalate (params.map fun p => (localText p.text).toList) := by
    rw [code_separated, List.map_map]
    refine congrArg _ (List.map_congr_left fun p _ => ?_)
    simp only [Function.comp_apply, code_append, localIdentifier_eq, localText]
    split <;> simp [code, codeOf]
  have hblank := blank_line (depth + 1)
  refine ⟨[], (code [line depth]).toList, (code [line (depth + 1)]).toList ++
    (code (paramPattern true params)).toList, ?_, (bracketed_line depth).reads [], List.not_mem_nil, ?_, ?_⟩
  · simp [code, codeOf]
  · exact Code.Reads.append ((bracketed_line (depth + 1)).reads [])
      ((formed_paramPattern true params).bracketed.reads [])
  · have hpattern := (Code.opens_pattern (params.map fun p => (localText p.text).toList) hblank
      fun n hn => ?_).append " = ".toList
    · rw [paramPattern, code_append, code_append, String.toList_append, String.toList_append, hnames]
      simpa [code, codeOf, Function.comp_def] using hpattern
    · obtain ⟨p, -, rfl⟩ := List.mem_map.1 hn
      exact localText_toList p.text

/-- A parameter that is no identifier is an issue. -/
theorem isIdentifier_of_issues {params : List Name} (h : issues (paramPattern true params) = []) :
    ∀ p ∈ params, isIdentifier p.text = true := by
  intro p hp
  rw [paramPattern, issues_append, issues_append] at h
  obtain ⟨before, hstands⟩ := @Stands.separated _ ", " _ (List.mem_map_of_mem hp)
  have hnone := hstands.issues_eq_nil (List.append_eq_nil_iff.1 (List.append_eq_nil_iff.1 h).1).2
  by_contra hid
  simp [Bool.eq_false_iff.2 hid, issues, issuesOf] at hnone

theorem writes_blockContents {key : Draft} (params : List Name) (hkey : Formed true key)
    (h : Writes false (⟨.declared, params⟩ :: outer) body u) :
    Writes false outer (blockContents depth key params body) u := by
  have hlead : Reads [] [.bracket] [.text "__glintY__.blockParams["] := reads_text rfl
  have hend : Reads [.bracket] [] [.text "];"] := reads_text rfl
  have hfront := (((enters_params depth params).append hlead).append (hkey.bracketed.reads _)).append hend
  have hbody : Writes false ([⟨.declared, params⟩] ++ outer) (Draft.within params body) u :=
    h.within params
  refine Writes.left (hbody.enter false hfront List.not_mem_nil (fun hissues => ?_) nofun) _
  have hnames : ∀ name ∈ (⟨.declared, params⟩ : Binder).names, isIdentifier name = true := by
    intro name hname
    obtain ⟨p, hp, rfl⟩ := List.mem_map.1 hname
    have hpattern := ((((Stands.refl (paramPattern true params)).after
      [line depth, .text "\x7b", line (depth + 1)]).left [.text "__glintY__.blockParams["]).left
      key).left [.text "];"]
    exact isIdentifier_of_issues (hpattern.issues_eq_nil hissues) p hp
  have hshows : Shows [(⟨.declared, params⟩ : Binder).locals] [⟨.declared, params⟩] :=
    .declared rfl hnames .done
  simpa [Binder.locals, Binder.names, Function.comp_def] using hshows

/-- What a component or an element starts with. -/
theorem enters_element {text : String} {l : List Opener} (rest : List Char)
    (htext : text.toList = "const __glintY__ ".toList ++ rest) (h : Code.after [] text = some l) :
    Enters ["__glintY__"] l [.text "\x7b", line depth, .text text] := by
  refine ⟨[], [], (code [line depth]).toList ++ text.toList, ?_, Code.bracketed_nil.reads [],
    List.not_mem_nil, Code.Reads.append ((bracketed_line depth).reads []) (Code.reads_of_after h), ?_⟩
  · simp [code, codeOf]
  · have hopens := (Code.opens_name "__glintY__".toList (c := ' ') (blank_line depth)
      (List.all_eq_true.1 (by decide)) (by decide) (by decide)).append rest
    rw [htext]
    simpa using hopens

theorem plain_brace (d : Draft) : Draft.Plain (.text "\x7b" :: d) := by
  have hbrace : Draft.Plain [.text "\x7b"] := plain_text rfl
  exact hbrace.append d

theorem writes_componentBlock (b : Bindings) (depth : Nat) (c : Call) {arms : Draft}
    (h : Writes false outer (call b c).resolve u ∨ Writes false outer arms u) :
    Writes true outer (componentBlock b depth c arms) u := by
  have hopen : Enters ["__glintY__"] [.paren] [.text "\x7b", line (depth + 1),
      .text "const __glintY__ = __glintDSL__.emitComponent("] :=
    enters_element (depth + 1) "= __glintDSL__.emitComponent(".toList rfl rfl
  have hresolve := (formed_call b c).resolve.bracketed.reads [.paren]
  have hend : Reads [.paren] [] [.text ");"] := reads_text rfl
  refine Writes.node (Writes.left ?_ _) _ _
  rcases h with h | h
  · exact Writes.left (Writes.left (h.inElement hopen (by decide) (plain_brace _)) _) _
  · exact h.inElement ((hopen.append hresolve).append hend) List.not_mem_nil (plain_brace _)

/-- The condition of a block and what comes before its body. -/
theorem writes_ifBlock (use : FormUse) (c : Call) {inverse : Option Draft} (hbody : Formed false body)
    (h : u ∈ Occurrence.ofArguments p c ∧ u.place.written = true ∨
      Writes true p.binders body u ∨ ∃ other ∈ inverse, Writes true p.binders other u) :
    Writes true p.binders (ifBlock p.bindings depth use c body inverse) u := by
  have hmention := (formed_mention depth use (formed_expr p.bindings c.callee)).bracketed.reads []
  have hif : Reads [] [.paren, .paren] [.text (if use.form = .ifNot then "if (!(" else "if ((")] := by
    split <;> exact reads_text rfl
  have hcondition := (formed_condition p.bindings use c).bracketed.reads [.paren, .paren]
  have hplain : Draft.Plain (mention depth use (expr p.bindings c.callee) ++
      [Piece.text (if use.form = .ifNot then "if (!(" else "if ((")]) := by
    refine plain_mention depth use _ ?_
    split <;> exact plain_text rfl
  refine Writes.node ?_ _ _
  rcases h with ⟨hu, hw⟩ | h | ⟨other, hother, h⟩
  · refine Writes.left (Writes.left (Writes.left (Writes.left (Writes.after true ?_ (hmention.append hif)
      (by decide) fun _ => hplain) _) _) _) _
    unfold condition
    split
    · rename_i value hparams hpairs
      refine writes_expr p value ?_ hw
      simpa [Occurrence.ofArguments, hparams, hpairs, Occurrence.ofExprs, Occurrence.ofPairs] using hu
    · exact .of_issues (List.cons_ne_nil _ _)
  · have hclose : Reads [.paren, .paren] [] [.text ")) "] := reads_text rfl
    refine Writes.left (Writes.left (h.object true _ _ [] ?_
      (((hmention.append hif).append hcondition).append hclose) List.not_mem_nil (by simp)
      fun _ => (hplain.append _).append _) _) _
    simp [code, codeOf]
  · rw [Option.mem_def.1 hother]
    have hopen : Reads [.paren, .paren] [.brace] [.text ")) \x7b"] := reads_text rfl
    have hclosing : Reads [.brace] [] [line depth, .text "\x7d"] :=
      reads_write (.code [.line depth, .text "\x7d"]) [] rfl
    have helse : Reads [] [] [.text " else "] := reads_text rfl
    have hfront := ((((((hmention.append hif).append hcondition).append hopen).append
      (hbody.bracketed.reads _)).append hclosing).append helse)
    dsimp only
    rw [← List.append_assoc, ← List.append_assoc]
    refine Writes.left (h.object true _ _ [] ?_ hfront List.not_mem_nil (by simp)
      fun _ => ((((hplain.append _).append _).append _).append _).append _) _
    simp [code, codeOf]

theorem writes_plainElement (tag : Name) (span : Span) (hneat : ∀ a ∈ t.attributes, a.value.Neat)
    (h : Writes false p.binders (t.draft p.bindings (depth + 1)) u ∨ Writes false p.binders body u) :
    Writes true p.binders (plainElement p.bindings depth tag span t body) u := by
  have hopen : Enters ["__glintY__"] [.paren] [.text "\x7b", line (depth + 1),
      .text "const __glintY__ = __glintDSL__.emitElement("] :=
    enters_element (depth + 1) "= __glintDSL__.emitElement(".toList rfl rfl
  have hname := (formed_quotedName tag.text tag.span).bracketed.reads [.paren]
  have hend : Reads [.paren] [] [.text ");"] := reads_text rfl
  have htag := (formed_openTag p.bindings (depth + 1) hneat).bracketed.reads []
  have huse := (formed_bareUse (depth + 1) t).bracketed.reads []
  have hfront := (hopen.append hname).append hend
  refine Writes.node (Writes.left ?_ _) _ _
  rcases h with h | h
  · exact Writes.left (Writes.left (h.inElement hfront List.not_mem_nil (plain_brace _)) _) _
  · exact h.inElement ((hfront.append htag).append huse) List.not_mem_nil (plain_brace _)

theorem writes_tagPath (tag : String) (span : Span) (hu : u ∈ Occurrence.ofTag p tag span) :
    Writes false p.binders (tagPath p.bindings tag span) u := by
  unfold tagPath
  unfold Occurrence.ofTag at hu
  cases htag : tagSegments span.start (tag.toList.splitOn '.') with
  | nil =>
    rw [htag] at hu
    cases hu
  | cons head tail =>
    rw [htag] at hu
    rw [List.mem_singleton.1 hu]
    exact Writes.here (u := ⟨p, tagHead head, tail, span⟩) rfl

/-- The parts of a component that write an occurrence. -/
inductive ComponentWrites (p : Place) (depth : Nat) (tag : Name) (attributes : List Attribute) (t : OpenTag)
    (closeTag : Option Span) (blocks : Option Draft) (u : Occurrence) : Prop
  | tag (h : Writes false p.binders (tagPath p.bindings tag.text tag.span) u)
  | arguments (h : Writes false p.binders (arguments p.bindings attributes) u)
  | opening (h : Writes false p.binders (t.draft p.bindings (depth + 1)) u)
  | blocks (d : Draft) (hd : blocks = some d) (h : Writes false p.binders d u)
  | close (span : Span) (hspan : closeTag = some span)
      (h : Writes false p.binders (tagPath p.bindings tag.text span) u)

theorem writes_componentElement (tag : Name) (span : Span) {closeTag : Option Span} {blocks : Option Draft}
    (hattributes : ∀ a ∈ attributes, a.value.Neat) (hneat : ∀ a ∈ t.attributes, a.value.Neat)
    (hblocks : ∀ d ∈ blocks, Formed false d) (h : ComponentWrites p depth tag attributes t closeTag blocks u) :
    Writes true p.binders (componentElement p.bindings depth tag span attributes t closeTag blocks) u := by
  have hopen : Enters ["__glintY__"] [.paren, .paren] [.text "\x7b", line (depth + 1),
      .text "const __glintY__ = __glintDSL__.emitComponent(__glintDSL__.resolve("] :=
    enters_element (depth + 1) "= __glintDSL__.emitComponent(__glintDSL__.resolve(".toList rfl rfl
  have hpath := (formed_tagPath p.bindings tag.text tag.span).bracketed.reads [.paren, .paren]
  have hcall : Reads [.paren, .paren] [.paren, .paren] [.text ")("] := reads_text rfl
  have hargs := (formed_arguments p.bindings hattributes).bracketed.reads [.paren, .paren]
  have hend : Reads [.paren, .paren] [] [.text "));"] := reads_text rfl
  have htag := (formed_openTag p.bindings (depth + 1) hneat).bracketed.reads []
  have hparens : Opener.brace ∉ [Opener.paren, .paren] := by decide
  have hfront := (hopen.append hpath).append hcall
  have hcalled := (hfront.append hargs).append hend
  refine Writes.node (Writes.left ?_ _) _ _
  cases h with
  | tag h =>
    exact Writes.left (Writes.left (Writes.left (Writes.left (Writes.left (Writes.left
      (h.inElement hopen hparens (plain_brace _)) _) _) _) _) _) _
  | arguments h =>
    exact Writes.left (Writes.left (Writes.left (Writes.left
      (h.inElement hfront hparens (plain_brace _)) _) _) _) _
  | opening h =>
    exact Writes.left (Writes.left (h.inElement hcalled List.not_mem_nil (plain_brace _)) _) _
  | blocks d hd h =>
    rw [hd]
    exact Writes.left (h.inElement (hcalled.append htag) List.not_mem_nil (plain_brace _)) _
  | close span hspan h =>
    rw [hspan]
    dsimp only
    rw [← List.append_assoc, ← List.append_assoc]
    refine Writes.left (h.inElement (((hcalled.append htag).append (Bracketed.reads ?_ [])).append
      ((bracketed_line _).reads [])) List.not_mem_nil (plain_brace _)) _
    cases blocks with
    | some d => exact (hblocks d rfl).bracketed
    | none => exact (formed_bareUse (depth + 1) t).bracketed

/-! ## Statements -/

theorem code_comment (c : Comment) (next : Option Span) : code (comment c next) = "" := by
  unfold comment
  split <;> rfl

theorem plain_ifBlock (b : Bindings) (depth : Nat) (use : FormUse) (c : Call) (body : Draft)
    (inverse : Option Draft) : Draft.Plain (ifBlock b depth use c body inverse) := by
  have hif : Draft.Plain [.text (if use.form = .ifNot then "if (!(" else "if ((")] := by
    split <;> exact plain_text rfl
  exact (((((plain_mention depth use _ hif).append _).append _).append _).append _).append _ |>.node _ _

/-- The code of a statement, if it has any, starts with no declaration. -/
theorem plain_statement (b : Bindings) (depth : Nat) (next : Option Span) (s : Statement) :
    code (statement b depth next s) = "" ∨ Draft.Plain (statement b depth next s) := by
  cases s with
  | text _ => exact .inl rfl
  | comment _ => exact .inl rfl
  | mustacheComment c => exact .inl (code_comment c next)
  | mustache m => exact .inr ((plain_mustacheStatement b depth m).line depth)
  | block blk =>
    obtain ⟨c, ⟨_, _, _, _⟩, _, _, _⟩ := blk
    rw [statement]
    split
    · exact .inr (((plain_brace _).node _ _).line depth)
    · split
      · exact .inr ((plain_ifBlock b depth _ c _ _).line depth)
      · exact .inr (((plain_brace _).node "BlockStatement" c.span).line depth)
  | element e =>
    obtain ⟨_, _, _, _, _, _, _, _, span⟩ := e
    rw [statement]
    dsimp only
    split
    · exact .inr (((plain_brace _).node "ElementNode" span).line depth)
    · split
      · exact .inr (((plain_brace _).node _ _).line depth)
      · exact .inr (((plain_brace _).node _ _).line depth)

/-- What stands in the opening tag of a component. -/
theorem writes_opening {parts : List TagPart} {modifiers : List Call} (component : Bool)
    (hneat : ∀ a ∈ attributes, a.value.Neat) (hu : u ∈ Occurrence.ofOpening p attributes modifiers)
    (hw : u.place.written = true) :
    Writes false p.binders ((OpenTag.of parts attributes modifiers component).draft p.bindings depth) u ∨
      component = true ∧ Writes false p.binders (arguments p.bindings attributes) u := by
  have htag : ∀ a ∈ (OpenTag.of parts attributes modifiers component).attributes, a.value.Neat :=
    neat_of_openTag hneat
  rcases List.mem_append.1 hu with hu | hu
  · obtain ⟨a, ha, hu⟩ := List.mem_flatMap.1 hu
    by_cases hsplat : a.isSplattributes = true
    · exact .inl (writes_openTag p depth htag (.inl ⟨a, List.mem_append_left _
        (List.mem_filter.2 ⟨ha, hsplat⟩), hu⟩) hw)
    · by_cases harg : component = true ∧ a.isArgument = true
      · exact .inr ⟨harg.1, writes_arguments p hneat ha harg.2 hu hw⟩
      · refine .inl (writes_openTag p depth htag (.inl ⟨a, List.mem_append_right _
          (List.mem_filter.2 ⟨ha, ?_⟩), hu⟩) hw)
        simpa [hsplat] using not_and_or.1 harg
  · obtain ⟨m, hm, hu⟩ := List.mem_flatMap.1 hu
    exact .inl (writes_openTag p depth htag (.inr ⟨m, hm, hu⟩) hw)

mutual

theorem writes_statements (depth : Nat) {closed : Bool} : ∀ (p : Place) {ss : List Statement}
    {u : Occurrence}, statementsNeat closed ss → u ∈ Occurrence.ofStatements p ss →
      u.place.written = true → Writes true p.binders (statements p.bindings depth ss) u
  | _, [], _, _, hu, _ => nomatch hu
  | p, s :: rest, u, ⟨hs, hrest⟩, hu, hw => by
    rw [Occurrence.ofStatements] at hu
    rw [statements]
    rcases List.mem_append.1 hu with hu | hu
    · exact Writes.left (writes_statement depth (nextSignificant rest) p hs hu hw) _
    · exact (writes_statements depth p hrest hu hw).after_bracketed
        (formed_statement p.bindings depth _ hs).bracketed fun _ => plain_statement p.bindings depth _ s

theorem writes_statement (depth : Nat) (next : Option Span) {closed : Bool} : ∀ (p : Place) {s : Statement}
    {u : Occurrence}, s.Neat closed → u ∈ Occurrence.ofStatement p s → u.place.written = true →
      Writes true p.binders (statement p.bindings depth next s) u
  | _, .text _, _, _, hu, _ => nomatch hu
  | _, .comment _, _, _, hu, _ => nomatch hu
  | _, .mustacheComment _, _, _, hu, _ => nomatch hu
  | p, .mustache m, _, _, hu, hw => (writes_mustacheStatement p depth m hu hw).line depth
  | p, .block ⟨c, ⟨_, params, _, _⟩, _, _, _⟩, u, ⟨_, hbody, hinverse⟩, hu, hw => by
    have hdefault : Formed true [.text "\"default\""] := formed_text rfl
    rw [Occurrence.ofStatement] at hu
    rw [statement]
    cases hform : p.bindings.formOf? c.callee with
    | none =>
      rw [hform] at hu
      refine (writes_componentBlock p.bindings depth c ?_).line depth
      rcases List.mem_append.1 hu with hu | hu
      · rcases List.mem_append.1 hu with hu | hu
        · refine .inl ((keyed_call p.bindings c).writes_resolve ?_)
          exact (writes_ofCall p hu hw).imp_left And.right
        · have harm := writes_statements (depth + 2) (p.enter .declared params) hbody hu hw
          exact .inr (Writes.left (writes_blockContents _ params hdefault harm.loosen) _)
      · refine .inr ((writes_elseArm (depth + 1) p hinverse hu hw).after false ?_ List.not_mem_nil nofun)
        exact (formed_blockContents _ params hdefault
          (formed_statements (p.bindings.enter params) _ hbody)).bracketed.reads []
    | some use =>
      rw [hform] at hu
      dsimp only at hu ⊢
      by_cases hif : use.form = .ifElse ∨ use.form = .ifNot
      · rw [Occurrence.armBindings, if_pos hif] at hu
        rw [if_pos hif]
        have hformed := (formed_statements (p.bindings.enter params) (depth + 1) hbody).within params
        refine (writes_ifBlock p depth use c hformed ?_).line depth
        rcases List.mem_append.1 hu with hu | hu
        · rcases List.mem_append.1 hu with hu | hu
          · refine .inl ⟨?_, hw⟩
            rw [Occurrence.ofCall, hform] at hu
            simpa using hu
          · have harm := writes_statements (depth + 1) (p.enter .assumed params) hbody hu hw
            exact .inr (.inl (Writes.hide (harm.within params) (by simp)))
        · exact .inr (.inr (writes_elseBody (depth + 1) p hinverse hu hw))
      · rw [if_neg hif]
        exact .of_issues (List.cons_ne_nil _ _)
  | p, .element ⟨tag, _, _, _, params, children, _, _, span⟩, u, ⟨h, hchildren⟩, hu, hw => by
    have hdefault : Formed true [.text "\"default\""] := formed_text rfl
    rw [Occurrence.ofStatement] at hu
    rw [statement]
    dsimp only
    by_cases hnamed : (tag.text.toList.head? == some ':') = true
    · rw [if_pos hnamed]
      exact .of_issues (List.cons_ne_nil _ _)
    · rw [if_neg hnamed] at hu ⊢
      by_cases hcomponent : isComponent p.bindings tag.text = true
      · rw [if_pos hcomponent] at hu ⊢
        refine (writes_componentElement p depth tag span h.values (neat_of_openTag h.values) ?_ ?_).line depth
        · intro d hd
          split at hd
          · cases hd
          · split at hd
            · cases hd
              exact formed_namedBlocks p.bindings _ hchildren
            · cases hd
              exact formed_blockContents _ params hdefault
                (formed_statements (p.bindings.enter params) _ hchildren)
        · rcases List.mem_append.1 hu with hu | hu
          · rcases List.mem_append.1 hu with hu | hu
            · rcases List.mem_append.1 hu with hu | hu
              · exact .tag (writes_tagPath p tag.text tag.span hu)
              · rcases writes_opening p (depth + 1) true h.values hu hw with hwrites | ⟨-, hwrites⟩
                · exact .opening hwrites
                · exact .arguments hwrites
            · have hne : (children.isEmpty && params.isEmpty) = false := by
                cases children with
                | nil => cases hu
                | cons _ _ => rfl
              simp only [hne, Bool.false_eq_true, if_false]
              by_cases hblocks : hasNamedBlock children = true
              · rw [if_pos hblocks] at hu ⊢
                have hwrites := writes_namedBlocks (depth + 1) (p.enter .ignored params) hchildren hu hw
                exact .blocks _ rfl (Writes.hide hwrites (by simp))
              · rw [if_neg hblocks] at hu ⊢
                have hbody := writes_statements (depth + 2) (p.enter .declared params) hchildren hu hw
                exact .blocks _ rfl (writes_blockContents _ params hdefault hbody.loosen)
          · obtain ⟨span', hspan, hu⟩ := List.mem_flatMap.1 hu
            exact .close span' (Option.mem_toList.1 hspan) (writes_tagPath p tag.text span' hu)
      · rw [if_neg hcomponent] at hu ⊢
        refine (writes_plainElement p depth tag span (neat_of_openTag h.values) ?_).line depth
        rcases List.mem_append.1 hu with hu | hu
        · exact .inl ((writes_opening p (depth + 1) false h.values hu hw).resolve_right (by simp))
        · exact .inr (writes_statements (depth + 1) p hchildren hu hw).loosen

theorem writes_elseArm (depth : Nat) : ∀ (p : Place) {inverse : Option Arm} {u : Occurrence},
    inverseNeat inverse → u ∈ Occurrence.ofInverse p .declared inverse → u.place.written = true →
      Writes false p.binders (elseArm p.bindings depth inverse) u
  | _, none, _, _, hu, _ => nomatch hu
  | p, some ⟨body, params, _, _⟩, u, h, hu, hw => by
    have helse : Formed true [.text "\"else\""] := formed_text rfl
    have hbody := writes_statements (depth + 1) (p.enter .declared params) h.1 hu hw
    exact writes_blockContents depth params helse hbody.loosen

theorem writes_elseBody (depth : Nat) : ∀ (p : Place) {inverse : Option Arm} {u : Occurrence},
    inverseNeat inverse → u ∈ Occurrence.ofInverse p .ignored inverse → u.place.written = true →
      ∃ other ∈ elseBody p.bindings depth inverse, Writes true p.binders other u
  | _, none, _, _, hu, _ => nomatch hu
  | p, some ⟨body, params, _, _⟩, u, h, hu, hw => by
    have hbody := writes_statements depth (p.enter .ignored params) h.1 hu hw
    exact ⟨statements p.bindings depth body, rfl, Writes.hide hbody (by simp)⟩

theorem writes_namedBlocks (depth : Nat) {closed : Bool} : ∀ (p : Place) {ss : List Statement}
    {u : Occurrence}, statementsNeat closed ss → u ∈ Occurrence.ofStatements p ss →
      u.place.written = true → Writes false p.binders (namedBlocks p.bindings depth ss) u
  | _, [], _, _, hu, _ => nomatch hu
  | p, .element ⟨tag, _, _, _, params, _, _, _, _⟩ :: rest, u, ⟨⟨_, hchildren⟩, hrest⟩, hu, hw => by
    rw [Occurrence.ofStatements] at hu
    rw [namedBlocks]
    by_cases hnamed : (tag.text.toList.head? == some ':') = true
    · have hname := formed_quotedName (withoutSigil tag).text (withoutSigil tag).span
      rw [Occurrence.ofStatement, if_pos hnamed] at hu
      rw [if_pos hnamed]
      rcases List.mem_append.1 hu with hu | hu
      · rcases List.mem_append.1 hu with hu | hu
        · exact absurd hw (not_written_of_mem_dropped hu)
        · have hbody := writes_statements (depth + 1) (p.enter .declared params) hchildren hu hw
          exact Writes.left (Writes.node (writes_blockContents depth params hname hbody.loosen) _ _) _
      · refine (writes_namedBlocks depth p hrest hu hw).after false ?_ List.not_mem_nil nofun
        exact ((formed_blockContents depth params hname
          (formed_statements (p.bindings.enter params) _ hchildren)).node _ _).bracketed.reads []
    · rw [if_neg hnamed]
      exact .of_issues (List.cons_ne_nil _ _)
  | p, .mustacheComment c :: rest, u, ⟨_, hrest⟩, hu, hw => by
    rw [namedBlocks]
    exact (writes_namedBlocks depth p hrest hu hw).after false ((formed_comment c _).bracketed.reads [])
      List.not_mem_nil nofun
  | p, .comment c :: rest, u, ⟨_, hrest⟩, hu, hw => by
    rw [namedBlocks]
    exact writes_namedBlocks depth p hrest hu hw
  | p, .text t :: rest, u, ⟨_, hrest⟩, hu, hw => by
    rw [namedBlocks]
    split
    · exact writes_namedBlocks depth p hrest hu hw
    · exact .of_issues (List.cons_ne_nil _ _)
  | _, .mustache _ :: _, _, _, _, _ => .of_issues (List.cons_ne_nil _ _)
  | _, .block ⟨_, _, _, _, _⟩ :: _, _, _, _, _ => .of_issues (List.cons_ne_nil _ _)

end

end Emit

end TypedTemplate
