/-
Code for placed statements has placed marks: mustaches, opening tags, blocks and elements. Blocks of
every kind write marks of their call, their parameters and their bodies, and elements of every kind
those of their tag, what it holds, their children and their closing tag, so that one lemma serves all
kinds of either.
-/
import TypedTemplate.Emit.Statement
import TypedTemplate.Proofs.Emit.Call

namespace TypedTemplate.Emit

open Draft Template
open TypedTemplate.Span (InOrder Scattered Apart)

variable {m : Mark} {a : Attribute} {parts : List TagPart} {body : Draft} {e : Element} (b : Bindings) (depth : Nat)

/-! ## Mustaches and comments -/

@[simp] theorem marksOf_line : marksOf (line depth) = [] := rfl

@[simp] theorem marks_comment (c : Comment) (next : Option Span) : marks (comment c next) = [] := by
  unfold comment
  split <;> rfl

theorem mem_mention {depth : Nat} {use : FormUse} {callee : Draft} (h : m ∈ marks (mention depth use callee)) :
    m ∈ marks callee := by
  unfold mention at h
  split at h
  · simpa using h
  · cases h

/-- The block that a yield goes to is named in a named argument. -/
theorem placed_yieldTarget (use : FormUse) {hash : Span} {pairs : List Pair}
    (hs : pairsPlaced pairs) (ho : InOrder hash.start (pairs.map (·.span)) hash.stop) :
    Placed [hash] (marks (yieldTarget use pairs)) := by
  unfold yieldTarget
  split
  · exact .nil _
  · rename_i pair hfind
    have hmem := List.mem_of_find?_eq_some hfind
    obtain ⟨hin, -⟩ := pairsPlaced_iff.1 hs pair hmem
    have hpair := ho.inside pair.span (List.mem_map_of_mem hmem)
    have hvalue := hin.inside pair.value.span (by simp)
    split
    · rename_i name span hlit
      rw [show pair.value.span = span by rw [hlit]; rfl] at hvalue
      refine ((Placed.nil []).node (by simp) hvalue.ordered _).mono ?_
      simpa using hvalue.mono hpair.lower hpair.upper
    · exact .nil _

theorem encloses_mustacheStatement {m : Mustache} (h : m.call.Placed) :
    Encloses m.span m.call.parts (marks (mustacheStatement b depth m)) := by
  unfold mustacheStatement
  split
  · rename_i name imported huse
    obtain ⟨hp, hi⟩ := h
    have hcells := call_inCells b hi hp
    have hall := hcells.callee.append (hcells.params.append
      (placed_yieldTarget ⟨name, .yield, imported⟩ hi.values hi.pairs)
      (List.pairwise_cons.1 hp.apart).2) hp.apart
    refine Placed.encloses (hall.subset fun n hn => ?_) _ _
    simp only [marks_append, marks_cons, marksOf_text, marks_nil, List.append_nil,
      marks_separated, List.mem_append] at hn
    simp only [call, List.mem_append]
    rcases hn with (hn | hn) | hn
    · exact .inl (mem_mention hn)
    · exact .inr (.inr hn)
    · exact .inr (.inl hn)
  · have hvalue : ∀ n ∈ marks ([Piece.text "__glintDSL__.emitContent("] ++ mustacheValue b false m ++
        [Piece.text ");"]), n ∈ (call b m.call).parts (b.formOf? m.call.callee) := by
      intro n hn
      exact mem_mustacheValue (by simpa using hn)
    exact ((placed_callParts b _ h.inner h.parts).subset hvalue).encloses _ _

/-! ## Attributes and modifiers -/

theorem placed_mustacheValue (asArgument : Bool) {m : Mustache} (h : m.call.Placed) :
    Placed [m.span] (marks (Draft.node "MustacheStatement" m.span (mustacheValue b asArgument m))) :=
  placed_callNode b _ h (fun _ => mem_mustacheValue) _

theorem placed_concatPart {p : ConcatPart} (h : p.Placed) : Placed [p.span] (marks (concatPart b p)) := by
  cases p with
  | text t => exact .nil _
  | mustache m => simpa [concatPart, ConcatPart.span] using placed_mustacheValue b false h

theorem placed_attrValue (asArgument : Bool) {v : AttrValue} (h : v.Placed) (hspan : v.span.start ≤ v.span.stop) :
    Placed [v.span] (marks (attrValue b asArgument v)) := by
  cases v with
  | text t => exact (Placed.nil []).node (by simp) hspan _
  | mustache m => exact placed_mustacheValue b asArgument h
  | concat parts span =>
    obtain ⟨ho, hp⟩ := h
    refine Placed.node ?_ ho.inside hspan _
    simpa using Placed.flatMap ho.apart fun p hp' => placed_concatPart b (hp p hp')

theorem placed_attrProperty (asArgument : Bool) {name : Name} (h : a.Placed)
    (hname : name.span.In a.name.span.start a.name.span.stop) :
    Placed [a.span] (marks (attrProperty b asArgument name a)) := by
  obtain ⟨ho, -, hv⟩ := h
  have hkey : Placed [a.name.span] (marks (objectKey name.text name.span)) :=
    (placed_objectKey name.text hname.ordered).mono (by simpa using hname)
  refine Placed.node ?_ ho.inside ho.le _
  simpa using hkey.append (placed_attrValue b asArgument hv ho.2.2.2.1) ho.apart

/-- A name without its sigil lies in the name. -/
theorem withoutSigil_in {name : Name} {c : Char} (hfits : name.Fits)
    (hhead : name.text.toList.head? = some c) :
    (withoutSigil name).span.In name.span.start name.span.stop := by
  have hpos : 0 < Text.size name.text := by
    obtain ⟨rest, hrest⟩ := List.head?_eq_some_iff.1 hhead
    have := c.utf8Size_pos
    rw [Text.size_eq_byteLength, hrest, Text.byteLength_cons]
    omega
  rw [Name.Fits] at hfits
  exact ⟨Nat.le_succ _, by dsimp only [withoutSigil]; omega, le_rfl⟩

/-- What an opening tag writes for an attribute. -/
def attributeCode (b : Bindings) (component : Bool) (a : Attribute) : Draft :=
  if a.isSplattributes then splattributes 0 a
  else if component && a.isArgument then attrProperty b true (withoutSigil a.name) a
  else attrProperty b false a.name a

theorem marks_splattributes (a : Attribute) : marks (splattributes depth a) = marks (splattributes 0 a) := by
  simp [splattributes]

theorem placed_attributeCode (component : Bool) (h : a.Placed) :
    Placed [a.span] (marks (attributeCode b component a)) := by
  unfold attributeCode
  split
  · unfold splattributes
    rw [marks_append, marks_append]
    split <;> exact (Placed.nil []).node (by simp) h.parts.le _
  · have hname := h.parts.inside a.name.span (by simp)
    split
    · rename_i harg
      have hhead : a.name.text.toList.head? = some '@' := by
        simpa [Attribute.isArgument] using (Bool.and_eq_true_iff.1 harg).2
      exact placed_attrProperty b true h (withoutSigil_in h.fits hhead)
    · exact placed_attrProperty b false h ⟨le_rfl, hname.ordered, le_rfl⟩

theorem placed_modifier {c : Call} (h : c.Placed) : Placed [c.span] (marks (modifier b c)) := by
  have hargs {m : Mark} (hm : m ∈ marks (call b c).args) : m ∈ (call b c).parts none := by
    simpa [CallDraft.parts, CallDraft.hash] using Or.inr (CallDraft.mem_args hm)
  unfold modifier
  dsimp only
  split
  · rw [marks_append]
    exact placed_callNode b none h (fun m hm => hargs (by simpa using hm)) _
  · refine placed_callNode b none h (fun m hm => ?_) _
    simp only [marks_append, marks_cons, marksOf_text, marks_nil, List.nil_append, List.append_nil,
      List.mem_append] at hm
    rcases hm with hm | hm
    · exact List.mem_append_left _ hm
    · split at hm
      · exact hargs (by simpa using hm)
      · cases hm

/-! ## Opening tags -/

@[simp] theorem marks_tagComments : ∀ parts : List TagPart, marks (tagComments parts) = []
  | [] => rfl
  | .comment c :: rest => by simp [tagComments, marks_tagComments rest]
  | .attr _ :: rest => marks_tagComments rest
  | .modifier _ :: rest => marks_tagComments rest

theorem not_splattributes_of_isArgument (h : a.isArgument = true) : a.isSplattributes = false := by
  by_contra hs
  have htext : a.name.text = "...attributes" := by simpa [Attribute.isSplattributes] using hs
  rw [Attribute.isArgument, htext] at h
  exact absurd h (by decide)

/-- What an opening tag writes stands for its attributes and modifiers, each once. -/
theorem mem_openTag {b : Bindings} {depth : Nat} {attributes : List Attribute} {modifiers : List Call}
    {component : Bool} (h : m ∈ marks ((OpenTag.of parts attributes modifiers component).draft b depth)) :
    m ∈ attributes.flatMap (fun a => marks (attributeCode b component a)) ∨
      m ∈ modifiers.flatMap fun c => marks (modifier b c) := by
  simp only [OpenTag.draft, OpenTag.of, marks_append, marks_tagComments, marks_flatMap,
    List.nil_append, List.mem_append, marks_cons, marksOf_line] at h
  rcases h with (h | h) | h
  · refine .inl ?_
    obtain ⟨a, ha, hm⟩ := List.mem_flatMap.1 h
    obtain ⟨ha, hs⟩ := List.mem_filter.1 ha
    refine List.mem_flatMap.2 ⟨a, ha, ?_⟩
    rw [attributeCode, if_pos hs, ← marks_splattributes depth]
    exact hm
  · refine .inl ?_
    unfold attributeObject at h
    split at h
    · cases h
    · have h : m ∈ (attributes.filter fun a => !a.isSplattributes && !(component && a.isArgument)).flatMap
          fun a => marks (attrProperty b false a.name a) := by simpa using h
      obtain ⟨a, ha, hm⟩ := List.mem_flatMap.1 h
      obtain ⟨ha, hs⟩ := List.mem_filter.1 ha
      simp only [Bool.and_eq_true, Bool.not_eq_true'] at hs
      refine List.mem_flatMap.2 ⟨a, ha, ?_⟩
      rw [attributeCode, if_neg (by simp [hs.1]), if_neg (by simp [hs.2])]
      exact hm
  · exact .inr h

/-- The arguments of a component stand for its attributes. -/
theorem mem_arguments {b : Bindings} {attributes : List Attribute} (h : m ∈ marks (arguments b attributes)) :
    m ∈ attributes.flatMap fun a => marks (attributeCode b true a) := by
  have h : m ∈ (attributes.filter (·.isArgument)).flatMap
      fun a => marks (attrProperty b true (withoutSigil a.name) a) := by
    simpa [arguments] using h
  obtain ⟨a, ha, hm⟩ := List.mem_flatMap.1 h
  obtain ⟨ha, hs⟩ := List.mem_filter.1 ha
  refine List.mem_flatMap.2 ⟨a, ha, ?_⟩
  rw [attributeCode, if_neg (by simp [not_splattributes_of_isArgument hs]), if_pos (by simpa using hs)]
  exact hm

/-! ## Bodies -/

theorem placed_paramPattern (checked : Bool) {params : List Name} {lo hi : Nat}
    (h : Scattered lo hi (params.map (·.span))) :
    Placed (params.map (·.span)) (marks (paramPattern checked params)) := by
  have hall : Placed (params.map (·.span))
      (params.flatMap fun p => marks (localIdentifier p.text p.span)) :=
    Placed.flatMap h.apart fun p hp =>
      placed_localIdentifier p.text (h.inside p.span (List.mem_map_of_mem hp)).ordered
  refine hall.subset fun m hm => ?_
  simp only [paramPattern, marks_append, marks_cons, marksOf_text, marks_nil, List.nil_append,
    List.append_nil, marks_separated, List.flatMap_map] at hm
  obtain ⟨p, hp, hm⟩ := List.mem_flatMap.1 hm
  refine List.mem_flatMap.2 ⟨p, hp, ?_⟩
  split at hm <;> simpa using hm

theorem marks_blockContents (name : Draft) (params : List Name) (body : Draft) :
    marks (blockContents depth name params body) =
      marks (paramPattern true params) ++ (marks name ++ marks body) := by
  simp [blockContents]

theorem mem_placeholderArm {depth : Nat} {params : List Name} (h : m ∈ marks (placeholderArm depth params body)) :
    m ∈ marks (paramPattern false params) ++ marks body := by
  unfold placeholderArm at h
  split at h
  · simp only [marks_append, marks_cons, marksOf_line, marksOf_text, marks_nil, marks_within,
      List.nil_append, List.append_nil] at h
    exact List.mem_append_right _ h
  · simpa using h

/-- Parameters with the body after them. -/
theorem placed_arm (checked : Bool) {params : List Name} {body : List Statement} {code : Draft}
    {lo hi : Nat} (ho : Scattered lo hi (params.map (·.span) ++ body.map (·.span)))
    (hbody : Placed (body.map (·.span)) (marks code)) :
    Placed (params.map (·.span) ++ body.map (·.span))
      (marks (paramPattern checked params) ++ marks code) := by
  exact (placed_paramPattern checked ho.left).append hbody ho.apart

/-- A block of any kind, by the marks of its two arms. -/
theorem encloses_blockNode (use : Option FormUse) {block : Block} (h : block.Laid) {inside : Draft}
    {first second : List Mark} (hfirst : Placed block.program.parts first)
    (hsecond : Placed ((block.inverse.map Arm.parts).getD []) second)
    (hs : ∀ m ∈ marks inside, m ∈ (call b block.call).parts use ++ first ++ second) :
    Encloses block.span block.parts (marks (Draft.node "BlockStatement" block.call.span inside)) := by
  obtain ⟨mid, hleft, -⟩ := h.parts.split
  obtain ⟨mid', hcall, -⟩ := hleft.split
  have hall := ((placed_callParts b use h.inner hcall).append hfirst hleft.apart).append hsecond
    h.parts.apart
  rw [h.whole]
  exact (hall.subset hs).encloses _ _

/-- The marks of what an opening tag holds, by those of its tag and of its parameters. -/
theorem placed_opening (component : Bool) (h : e.Laid) {tag params : List Mark} (htag : Placed [e.tag.span] tag)
    (hparams : Placed (e.params.map (·.span)) params) :
    Placed
      (e.tag.span :: (e.attributes.map (·.span) ++ e.modifiers.map (·.span) ++ e.params.map (·.span)))
      (tag ++ (e.attributes.flatMap (fun a => marks (attributeCode b component a)) ++
        e.modifiers.flatMap (fun c => marks (modifier b c)) ++ params)) := by
  obtain ⟨hleft, -, -⟩ := List.pairwise_append.1 h.pieces.apart
  have hkinds := (List.pairwise_cons.1 hleft).2
  obtain ⟨hfront, -, -⟩ := List.pairwise_append.1 hkinds
  obtain ⟨hattributes, hmodifiers, -⟩ := List.pairwise_append.1 hfront
  have hattr := Placed.flatMap hattributes fun a ha =>
    placed_attributeCode b component (h.attributes a ha)
  have hmod := Placed.flatMap hmodifiers fun c hc => placed_modifier b (h.modifiers c hc)
  exact htag.append ((hattr.append hmod hfront).append hparams hkinds) hleft

/-- An element of any kind, by the marks of its tag, its parameters, its children and its closing
tag. -/
theorem encloses_elementNode (component : Bool) (h : e.Laid) {inside : Draft} {tag params children close : List Mark}
    (htag : Placed [e.tag.span] tag) (hparams : Placed (e.params.map (·.span)) params)
    (hchildren : Placed (e.children.map (·.span)) children) (hclose : Placed e.closeTagSpan.toList close)
    (hs : ∀ m ∈ marks inside, m ∈
      tag ++ (e.attributes.flatMap (fun a => marks (attributeCode b component a)) ++
        e.modifiers.flatMap (fun c => marks (modifier b c)) ++ params) ++ (children ++ close)) :
    Encloses e.span e.pieces (marks (Draft.node "ElementNode" e.span inside)) := by
  have hapart := h.pieces.apart
  obtain ⟨-, hright, -⟩ := List.pairwise_append.1 hapart
  have hall := (placed_opening b component h htag hparams).append
    (hchildren.append hclose hright) hapart
  exact (hall.subset hs).encloses _ _

/-! ## Elements -/

theorem mem_bodyOf_if {p : Bool} {a : Draft} (h : m ∈ marks (if p then [] else a)) (ha : marks a = []) : False := by
  split at h
  · cases h
  · rw [ha] at h
    cases h

/-- The marks of the closing tag of a component. -/
def closeMarks (b : Bindings) (tag : String) (close : Option Span) : List Mark :=
  close.toList.flatMap fun span => marks (tagPath b tag span)

theorem placed_closeMarks {tag : String} {close : Option Span} (h : ∀ s ∈ close, s.stop = s.start + Text.size tag) :
    Placed close.toList (closeMarks b tag close) := by
  cases close with
  | none => exact .nil _
  | some span => simpa [closeMarks] using placed_tagPath b (h span rfl)

theorem encloses_plainElement (h : e.Laid) (hbody : Placed (e.children.map (·.span)) (marks body)) :
    Encloses e.span e.pieces (marks (plainElement b depth e.tag e.span
      (.of parts e.attributes e.modifiers false) body)) := by
  have htag := (h.pieces.inside e.tag.span (by simp [Element.pieces])).ordered
  refine encloses_elementNode b false h (placed_quotedName e.tag.text htag) (.nil _) hbody
    (.nil _) fun m hm => ?_
  simp only [marks_append, marks_cons, marksOf_text, marksOf_line, marks_nil, List.nil_append,
    List.append_nil, List.mem_append] at hm ⊢
  rcases hm with ((hm | hm) | hm) | hm
  · exact .inl (.inl hm)
  · exact .inl (.inr (mem_openTag hm))
  · exact (mem_bodyOf_if hm rfl).elim
  · exact .inr hm

theorem encloses_componentElement {blocks : Option Draft} {params children : List Mark} (h : e.Laid)
    (hparams : Placed (e.params.map (·.span)) params) (hchildren : Placed (e.children.map (·.span)) children)
    (hblocks : ∀ d ∈ blocks, ∀ m ∈ marks d, m ∈ params ∨ m ∈ children) :
    Encloses e.span e.pieces (marks (componentElement b depth e.tag e.span e.attributes
      (.of parts e.attributes e.modifiers true) e.closeTagSpan blocks)) := by
  refine encloses_elementNode b true h (placed_tagPath b h.tag) hparams hchildren
    (placed_closeMarks b h.close) fun m hm => ?_
  simp only [marks_append, marks_cons, marksOf_text, marksOf_line, marks_nil, List.nil_append,
    List.append_nil, List.mem_append] at hm ⊢
  rcases hm with (((hm | hm) | hm) | hm) | hm
  · exact .inl (.inl hm)
  · exact .inl (.inr (.inl (.inl (mem_arguments hm))))
  · exact .inl (.inr (.inl (mem_openTag hm)))
  · cases blocks with
    | none => exact (mem_bodyOf_if hm rfl).elim
    | some d =>
      rcases hblocks d rfl m hm with hm | hm
      · exact .inl (.inr (.inr hm))
      · exact .inr (.inl hm)
  · refine .inr (.inr ?_)
    cases hclose : e.closeTagSpan with
    | none =>
      rw [hclose] at hm
      cases hm
    | some span =>
      rw [hclose] at hm
      simpa [closeMarks] using hm

/-- The blocks of a component are its named blocks, or else its children with its parameters. -/
theorem encloses_component {named : Draft} (h : e.Laid) (hnamed : Placed (e.children.map (·.span)) (marks named))
    (hbody : Placed (e.children.map (·.span)) (marks body)) :
    Encloses e.span e.pieces (marks (componentElement b depth e.tag e.span e.attributes
      (.of parts e.attributes e.modifiers true) e.closeTagSpan
      (if e.children.isEmpty && e.params.isEmpty then none
       else if hasNamedBlock e.children then some named
       else some (blockContents (depth + 1) [.text "\"default\""] e.params body)))) := by
  have hpattern := placed_paramPattern true h.pieces.left.tail.right
  by_cases hempty : (e.children.isEmpty && e.params.isEmpty) = true
  · rw [if_pos hempty]
    exact encloses_componentElement b depth h (.nil _) (.nil _) (by simp)
  · rw [if_neg hempty]
    by_cases hblock : hasNamedBlock e.children = true
    · rw [if_pos hblock]
      refine encloses_componentElement b depth h (.nil _) hnamed ?_
      rintro d ⟨⟩ m hm
      exact .inr hm
    · rw [if_neg hblock]
      refine encloses_componentElement b depth h hpattern hbody ?_
      rintro d ⟨⟩ m hm
      simpa [marks_blockContents] using hm

include b in
theorem encloses_namedBlock (h : e.Laid) (hbody : Placed (e.children.map (·.span)) (marks body))
    (hsigil : e.tag.text.toList.head? = some ':') :
    Encloses e.span e.pieces (marks (Draft.node "ElementNode" e.span (blockContents depth
      (quotedName (withoutSigil e.tag).text (withoutSigil e.tag).span) e.params body))) := by
  have hname := withoutSigil_in h.tag hsigil
  have htag : Placed [e.tag.span]
      (marks (quotedName (withoutSigil e.tag).text (withoutSigil e.tag).span)) :=
    (placed_quotedName _ hname.ordered).mono (by simpa using hname)
  refine encloses_elementNode b false h htag
    (placed_paramPattern true h.pieces.left.tail.right) hbody (.nil _) fun m hm => ?_
  simp only [marks_blockContents, List.append_nil, List.mem_append] at hm ⊢
  rcases hm with hm | hm | hm
  · exact .inl (.inr (.inr hm))
  · exact .inl (.inl hm)
  · exact .inr hm

include b in
theorem encloses_strayNamedBlock (h : e.Laid) (hbody : Placed (e.children.map (·.span)) (marks body)) :
    Encloses e.span e.pieces (marks (strayNamedBlock depth e.span body)) := by
  rw [strayNamedBlock, marks_append]
  refine encloses_elementNode b false h (.nil _) (.nil _) hbody (.nil _) fun m hm => ?_
  simp only [marks_append, marks_cons, marksOf_text, marksOf_line, marks_nil, List.nil_append,
    List.append_nil] at hm
  simp [hm]

theorem mem_condition {b : Bindings} {use : FormUse} {c : Call} (h : m ∈ marks (condition b use c)) :
    m ∈ (call b c).params.flatMap marks := by
  unfold condition at h
  split at h
  · rename_i value hparams _
    simpa [call, hparams, exprs] using h
  · cases h

/-! ## Statements -/

/-- What is written for a child of a component that has named blocks. -/
def namedBlock (b : Bindings) (depth : Nat) (next : Option Span) : Statement → Draft
  | .element ⟨tag, _, _, _, params, children, _, _, span⟩ =>
    if tag.text.toList.head? == some ':' then
      Draft.node "ElementNode" span <|
        blockContents depth (quotedName (withoutSigil tag).text (withoutSigil tag).span) params
          (statements (b.enter params) (depth + 1) children)
    else [.issue .mixedNamedBlocks span]
  | .mustacheComment c => comment c next
  | .comment _ => []
  | .text t => if t.isBlank then [] else [.issue .mixedNamedBlocks t.span]
  | .mustache m => [.issue .mixedNamedBlocks m.span]
  | .block ⟨_, _, _, _, span⟩ => [.issue .mixedNamedBlocks span]

theorem namedBlocks_cons (s : Statement) (rest : List Statement) :
    namedBlocks b depth (s :: rest) = namedBlock b depth (nextSignificant rest) s ++ namedBlocks b depth rest := by
  cases s with
  | text t => rw [namedBlocks, namedBlock]
  | comment c => rw [namedBlocks, namedBlock, List.nil_append]
  | mustacheComment c => rw [namedBlocks, namedBlock]
  | mustache m => rw [namedBlocks, namedBlock, List.singleton_append]
  | block blk =>
    obtain ⟨_, _, _, _, _⟩ := blk
    rw [namedBlocks, namedBlock, List.singleton_append]
  | element e =>
    cases e
    rw [namedBlocks, namedBlock]

mutual

theorem placed_statements (b : Bindings) (depth : Nat) : ∀ {ss : List Statement} {lo hi : Nat},
    statementsPlaced ss → Scattered lo hi (ss.map (·.span)) →
      Placed (ss.map (·.span)) (marks (statements b depth ss))
  | [], _, _, _, _ => .nil _
  | s :: rest, _, _, ⟨h, hs⟩, ho => by
    rw [statements, marks_append]
    exact ((encloses_statement b depth (nextSignificant rest) h).placed h.parts_in ho.head.ordered).append
      (placed_statements b depth hs ho.tail) ho.apart

/-- A statement is written as a construct around the marks of its parts, or not at all. -/
theorem encloses_statement (b : Bindings) (depth : Nat) (next : Option Span) :
    ∀ {s : Statement}, s.Placed → Encloses s.span s.parts (marks (statement b depth next s))
  | .text t, _ => .inr ⟨.text, true, [], rfl, rfl, .nil _⟩
  | .comment _, _ => .inl rfl
  | .mustacheComment c, _ => by
    rw [statement, marks_comment]
    exact .inl rfl
  | .mustache m, h => encloses_mustacheStatement b depth h
  | .block ⟨_, ⟨_, params, _, _⟩, inverse, _, _⟩, ⟨h, hbody, hinverse⟩ => by
    have hright := h.parts.scattered.right
    have hprogram := h.parts.scattered.left.right
    have harm (checked : Bool) (depth' : Nat) := placed_arm checked hprogram
      (placed_statements (b.enter params) depth' hbody hprogram.right)
    rw [statement]
    split
    · refine encloses_blockNode b none h (harm true (depth + 2))
        (placed_elseArm b (depth + 1) hinverse hright) fun m hm => ?_
      simp only [marks_append, marks_cons, marksOf_text, marksOf_line, marks_nil, List.nil_append,
        List.append_nil, marks_blockContents, List.mem_append] at hm ⊢
      rcases hm with hm | hm
      · exact .inl (.inl (by simpa [CallDraft.parts, CallDraft.hash] using CallDraft.mem_resolve hm))
      · exact hm.imp_left Or.inr
    · rename_i use _
      split
      · obtain ⟨other, hother, hsub⟩ := placed_elseBody b (depth + 1) hinverse hright
        refine encloses_blockNode b none h (harm true (depth + 1)) hother fun m hm => ?_
        simp only [marks_append, marks_cons, marksOf_text, marksOf_line, marks_nil, 
          List.append_nil, marks_within, List.mem_append] at hm ⊢
        rcases hm with ((hm | hm) | hm) | hm
        · exact .inl (.inl (List.mem_append_left _ (mem_mention hm)))
        · refine .inl (.inl (List.mem_append_right _ (List.mem_append_left _ ?_)))
          exact mem_condition hm
        · exact .inl (.inr (.inr hm))
        · refine .inr ?_
          cases hd : elseBody b (depth + 1) inverse with
          | none =>
            rw [hd] at hm
            cases hm
          | some d =>
            rw [hd] at hm
            exact hsub d hd m (by simpa using hm)
      · refine encloses_blockNode b none h (harm false (depth + 2))
          (placed_placeholderElse b (depth + 1) hinverse hright) fun m hm => ?_
        simp only [marks_append, marks_cons, marksOf_text, marksOf_line, marks_nil, List.nil_append,
          List.append_nil, List.mem_append] at hm ⊢
        rcases hm with hm | hm | hm
        · refine .inl (.inl (List.mem_append_right _ ?_))
          simpa [CallDraft.hash] using CallDraft.mem_args hm
        · exact .inl (.inr (List.mem_append.1 (mem_placeholderArm hm)))
        · exact .inr hm
  | .element ⟨_, _, _, _, params, _, _, _, _⟩,
      ⟨h, hchildren⟩ => by
    have hbody := h.pieces.right.left
    rw [statement]
    dsimp only
    split
    · exact encloses_strayNamedBlock b depth h
        (placed_statements b (depth + 1) hchildren hbody)
    · split
      · exact encloses_component b depth h (placed_namedBlocks b (depth + 1) hchildren hbody)
          (placed_statements (b.enter params) (depth + 2) hchildren hbody)
      · exact encloses_plainElement b depth h (placed_statements b (depth + 1) hchildren hbody)

theorem placed_elseArm (b : Bindings) (depth : Nat) : ∀ {inverse : Option Arm} {lo hi : Nat},
    inversePlaced inverse → Scattered lo hi ((inverse.map Arm.parts).getD []) →
      Placed ((inverse.map Arm.parts).getD []) (marks (elseArm b depth inverse))
  | none, _, _, _, _ => .nil _
  | some ⟨body, params, _, _⟩, _, _, h, ho => by
    have harm := placed_arm true ho (placed_statements (b.enter params) (depth + 1) h ho.right)
    simpa [elseArm, marks_blockContents, Arm.parts] using harm

theorem placed_elseBody (b : Bindings) (depth : Nat) : ∀ {inverse : Option Arm} {lo hi : Nat},
    inversePlaced inverse → Scattered lo hi ((inverse.map Arm.parts).getD []) →
      ∃ ms, Placed ((inverse.map Arm.parts).getD []) ms ∧
        ∀ d ∈ elseBody b depth inverse, ∀ m ∈ marks d, m ∈ ms
  | none, _, _, _, _ => ⟨[], .nil _, by simp [elseBody]⟩
  | some ⟨body, params, _, _⟩, _, _, h, ho => by
    refine ⟨_, placed_arm true ho (placed_statements b depth h ho.right), ?_⟩
    simp only [elseBody, Option.mem_def, Option.some.injEq, forall_eq']
    exact fun m hm => List.mem_append_right _ hm

theorem placed_placeholderElse (b : Bindings) (depth : Nat) :
    ∀ {inverse : Option Arm} {lo hi : Nat},
      inversePlaced inverse → Scattered lo hi ((inverse.map Arm.parts).getD []) →
        Placed ((inverse.map Arm.parts).getD []) (marks (placeholderElse b depth inverse))
  | none, _, _, _, _ => .nil _
  | some ⟨body, params, _, _⟩, _, _, h, ho => by
    have harm := placed_arm false ho (placed_statements (b.enter params) (depth + 1) h ho.right)
    exact harm.subset fun m hm => mem_placeholderArm hm

theorem placed_namedBlocks (b : Bindings) (depth : Nat) : ∀ {ss : List Statement} {lo hi : Nat},
    statementsPlaced ss → Scattered lo hi (ss.map (·.span)) →
      Placed (ss.map (·.span)) (marks (namedBlocks b depth ss))
  | [], _, _, _, _ => .nil _
  | s :: rest, _, _, ⟨h, hs⟩, ho => by
    rw [namedBlocks_cons, marks_append]
    exact ((encloses_namedBlockItem b depth (nextSignificant rest) h).placed h.parts_in ho.head.ordered).append
      (placed_namedBlocks b depth hs ho.tail) ho.apart

theorem encloses_namedBlockItem (b : Bindings) (depth : Nat) (next : Option Span) :
    ∀ {s : Statement}, s.Placed → Encloses s.span s.parts (marks (namedBlock b depth next s))
  | .text t, _ => by
    rw [namedBlock]
    split <;> exact .inl rfl
  | .comment _, _ => .inl rfl
  | .mustacheComment c, _ => by
    rw [namedBlock, marks_comment]
    exact .inl rfl
  | .mustache _, _ => .inl rfl
  | .block ⟨_, _, _, _, _⟩, _ => .inl rfl
  | .element ⟨_, _, _, _, params, _, _, _, _⟩,
      ⟨h, hchildren⟩ => by
    have hbody := placed_statements (b.enter params) (depth + 1) hchildren h.pieces.right.left
    rw [namedBlock]
    split
    · rename_i hsigil
      exact encloses_namedBlock b depth h hbody (by simpa using hsigil)
    · exact .inl rfl

end

end TypedTemplate.Emit
