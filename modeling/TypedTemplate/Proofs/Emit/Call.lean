/-
Code for placed expressions has placed marks. Every emitter is described by the marks it writes: names
and paths, then calls, whose parts may be written in an order of their own or twice. The cells are the
spans that the reader found, so what is left to show is that an emitter writes nothing but marks of
the parts it was given.
-/
import TypedTemplate.Emit.Call
import TypedTemplate.Proofs.Draft.Placed
import TypedTemplate.Proofs.Template.Placement

namespace TypedTemplate.Emit

open Draft Template
open TypedTemplate.Span (InOrder Apart)

variable {span : Span} {name : Name} {lo hi : Nat} (optional : Bool) (b : Bindings)

/-! ## Names -/

theorem placed_localIdentifier (name : String) (hspan : span.start ≤ span.stop) :
    Placed [span] (marks (localIdentifier name span)) := by
  unfold localIdentifier
  split
  · exact placed_name _ _ hspan
  · exact placed_name _ _ hspan

theorem placed_quotedName (name : String) (hspan : span.start ≤ span.stop) :
    Placed [span] (marks (quotedName name span)) := by
  unfold quotedName
  split
  · simpa using placed_name name name hspan
  · exact placed_name _ _ hspan

theorem placed_objectKey (key : String) (hspan : span.start ≤ span.stop) :
    Placed [span] (marks (objectKey key span)) := by
  unfold objectKey
  split
  · exact placed_name _ _ hspan
  · exact placed_quotedName _ hspan

theorem placed_property (h : name.span.start ≤ name.span.stop) :
    Placed [name.span] (marks (property optional name)) := by
  unfold property
  split
  · exact placed_name _ _ h
  · simpa using placed_quotedName name.text h

theorem placed_reference (h : name.span.start ≤ name.span.stop) : Placed [name.span] (marks (reference b name)) := by
  unfold reference
  split
  · simpa using placed_quotedName name.text h
  · exact placed_localIdentifier _ h

/-! ## Paths -/

theorem placed_properties {names : List Name} (h : InOrder lo (names.map (·.span)) hi) :
    Placed (names.map (·.span)) (marks (names.flatMap (property optional))) := by
  rw [marks_flatMap]
  refine Placed.flatMap h.apart fun n hn => placed_property optional ?_
  exact (h.inside n.span (List.mem_map_of_mem hn)).ordered

theorem placed_pathCode (b : Bindings) :
    ∀ {head : PathHead} {tail : List Name}, InOrder lo (head.span :: tail.map (·.span)) hi →
      Placed (head.span :: tail.map (·.span)) (marks (pathCode b head tail))
  | .this span, [], h => placed_name _ _ h.2.1
  | .this span, first :: tail, h => by
    have hfirst := placed_property false h.2.2.2.1
    have hall := (placed_name "this" "this" h.2.1).append
      (hfirst.append (placed_properties true h.2.2.2.2) (List.pairwise_cons.1 h.apart).2) h.apart
    simpa [pathCode, PathHead.span] using hall
  | .arg name, tail, h => by
    have hall := (placed_property false h.2.1).append (placed_properties true h.2.2) h.apart
    simpa [pathCode, PathHead.span] using hall
  | .var name, tail, h => by
    have hall := (placed_reference b h.2.1).append (placed_properties true h.2.2) h.apart
    simpa [pathCode, PathHead.span] using hall

theorem placed_path {p : Path} (h : p.Placed) : Placed [p.span] (marks (path b p)) :=
  (placed_pathCode b h).node (InOrder.inside h) (InOrder.le h) _

/-- The segments of a tag lie one after another, a point between two of them. -/
theorem inOrder_tagSegments : ∀ (segments : List (List Char)) (start : Nat),
    InOrder start ((tagSegments start segments).map (·.span))
      (start + Text.byteLength (['.'].intercalate segments))
  | [], start => Nat.le_add_right _ _
  | [segment], start => by
    simp only [tagSegments, List.map_cons, List.map_nil, List.intercalate_singleton]
    exact ⟨le_rfl, Nat.le_add_right _ _, le_rfl⟩
  | segment :: next :: rest, start => by
    have hrest := inOrder_tagSegments (next :: rest) (start + Text.byteLength segment + 1)
    have hdot : Char.utf8Size '.' = 1 := rfl
    rw [tagSegments, List.intercalate_cons_cons]
    simp only [List.map_cons, Text.byteLength_append, Text.byteLength_cons, Text.byteLength_nil,
      hdot]
    refine ⟨le_rfl, Nat.le_add_right _ _, hrest.mono (Nat.le_succ _) ?_⟩
    omega

theorem tagHead_in (hfits : name.Fits) (h : name.span.In lo hi) : (tagHead name).span.In lo hi := by
  unfold tagHead
  split
  · rename_i rest htext
    have hsize : Text.size name.text = 1 + Text.byteLength rest := by
      rw [Text.size_eq_byteLength, htext]
      rfl
    rw [Name.Fits, hsize] at hfits
    exact ⟨h.lower.trans (Nat.le_succ _), by dsimp only [PathHead.span]; omega, h.upper⟩
  · split <;> exact h

theorem placed_tagPath {tag : String} (hspan : span.stop = span.start + Text.size tag) :
    Placed [span] (marks (tagPath b tag span)) := by
  have hall := inOrder_tagSegments (tag.toList.splitOn '.') span.start
  rw [List.intercalate_splitOn, ← Text.size_eq_byteLength, ← hspan] at hall
  unfold tagPath
  split
  · exact (Placed.nil []).node (by simp) hall.le _
  · rename_i head tail hsegments
    rw [hsegments] at hall
    have hfits : head.Fits := by
      cases hs : tag.toList.splitOn '.' with
      | nil => simp [hs, tagSegments] at hsegments
      | cons segment rest =>
        simp only [hs, tagSegments, List.cons.injEq] at hsegments
        obtain ⟨rfl, -⟩ := hsegments
        simp [Name.Fits, Text.size_eq_byteLength]
    obtain ⟨h₁, h₂, h₃⟩ := hall
    have hhead := tagHead_in hfits (⟨h₁, h₂, le_rfl⟩ : head.span.In span.start head.span.stop)
    have hpath : InOrder span.start ((tagHead head).span :: tail.map (·.span)) span.stop :=
      ⟨hhead.lower, hhead.ordered, h₃.mono hhead.upper le_rfl⟩
    exact (placed_pathCode b hpath).node hpath.inside hpath.le _

/-! ## Calls -/

namespace CallDraft

variable {c : CallDraft} {m : Mark} {use : FormUse}

/-- The named arguments as a form writes them. -/
def hash (c : CallDraft) : Option FormUse → Draft
  | some ⟨_, .object, _⟩ => c.objectLiteral
  | _ => c.named

/-- The marks that the code of a call can be made of. -/
def parts (c : CallDraft) (use : Option FormUse) : List Mark :=
  marks c.callee ++ (c.params.flatMap marks ++ marks (c.hash use))

theorem mem_args (h : m ∈ marks c.args) : m ∈ c.params.flatMap marks ∨ m ∈ marks c.named := by
  simp only [args, marks_separated, List.flatMap_append, List.mem_append] at h
  refine h.imp_right fun h => ?_
  split at h
  · cases h
  · simpa using h

theorem mem_resolve (h : m ∈ marks c.resolve) :
    m ∈ marks c.callee ∨ m ∈ c.params.flatMap marks ∨ m ∈ marks c.named := by
  simp only [resolve, marks_append, marks_cons, marksOf_text, marks_nil, List.nil_append,
    List.append_nil, List.mem_append] at h
  exact h.imp_right mem_args

@[simp] theorem marks_faulty (c : CallDraft) (name : String) (fault : FormFault) :
    marks (c.faulty name fault) = [] := rfl

theorem mem_choice (h : m ∈ marks (c.choice use)) : m ∈ c.params.flatMap marks := by
  unfold choice at h
  split at h
  · rename_i condition yes rest hparams
    rw [hparams]
    cases rest with
    | nil => simpa using h
    | cons no more =>
      simp only [marks_append, marks_cons, marksOf_text, marks_nil, List.headD_cons,
        List.nil_append, List.append_nil, List.mem_append] at h
      simp only [List.flatMap_cons, List.mem_append]
      rcases h with (h | h) | h
      · exact .inl h
      · exact .inr (.inl h)
      · exact .inr (.inr (.inl h))
  · cases h

@[simp] theorem marks_operation (c : CallDraft) (operator : String) :
    marks (c.operation operator) = c.params.flatMap marks := by
  simp [operation]

theorem mem_positional {otherwise : Draft} (h : m ∈ marks (c.positional use otherwise)) : m ∈ marks otherwise := by
  unfold positional at h
  split at h
  · exact h
  · cases h

/-- A form is made of its arguments, except that a binding also calls its callee. -/
theorem mem_formValue (h : m ∈ marks (c.formValue use)) : m ∈ c.parts (some use) := by
  simp only [parts, List.mem_append]
  obtain ⟨name, form, imported⟩ := use
  cases form with
  | ifElse | ifNot => exact .inr (.inl (mem_choice h))
  | yield => cases h
  | object =>
    simp only [formValue] at h
    split at h
    · cases h
    · split at h
      · cases h
      · exact .inr (.inr (by simpa [hash] using h))
  | array =>
    have h := mem_positional h
    exact .inr (.inl (by simpa using h))
  | bindInvokable =>
    simp only [formValue] at h
    split at h
    · cases h
    · split at h
      · cases h
      · exact mem_resolve h
  | strictEqual | strictNotEqual | conjunction | disjunction =>
    have h := mem_positional h
    split at h
    · cases h
    · exact .inr (.inl (by simpa using h))
  | negation =>
    have h := mem_positional h
    split at h
    · rename_i value hparams
      rw [hparams]
      exact .inr (.inl (by simpa using h))
    · cases h

theorem mem_formExpression (h : m ∈ marks (c.formExpression use)) : m ∈ c.parts (some use) := by
  unfold formExpression at h
  split at h
  · simp only [marks_append, marks_cons, marksOf_text, marks_nil, List.nil_append, List.append_nil,
      List.mem_append] at h
    rcases h with h | h
    · exact List.mem_append_left _ h
    · exact mem_formValue h
  · exact mem_formValue h

theorem mem_value {use : Option FormUse} (h : m ∈ marks (c.value use)) : m ∈ c.parts use := by
  cases use with
  | some use => exact mem_formExpression h
  | none => simpa [parts, hash] using mem_resolve h

/-- The parts of a call in their cells. -/
structure InCells (c : CallDraft) (first : Span) (positional named : List Span) : Prop where
  callee : Placed [first] (marks c.callee)
  params : Placed positional (c.params.flatMap marks)
  pairs : Placed named (c.pairs.flatMap marks)
  inside : InOrder c.hashSpan.start named c.hashSpan.stop

theorem InCells.hash {callee : Span} {params pairs : List Span} (h : c.InCells callee params pairs)
    (use : Option FormUse) : Placed [c.hashSpan] (marks (c.hash use)) := by
  unfold CallDraft.hash
  split
  · refine Placed.node ?_ h.inside.inside h.inside.le _
    simpa using h.pairs
  · refine Placed.node ?_ h.inside.inside h.inside.le _
    simpa [List.flatMap_assoc] using h.pairs

theorem InCells.parts {callee : Span} {params pairs : List Span} (h : c.InCells callee params pairs)
    (use : Option FormUse) (hapart : (callee :: params ++ [c.hashSpan]).Pairwise Apart) :
    Placed (callee :: params ++ [c.hashSpan]) (c.parts use) := by
  have hrest := (List.pairwise_cons.1 hapart).2
  exact h.callee.append (h.params.append (h.hash use) hrest) hapart

end CallDraft

/-! ## Expressions -/

mutual

theorem placed_expr (b : Bindings) : ∀ {e : Expr}, e.Placed → e.span.start ≤ e.span.stop →
    Placed [e.span] (marks (expr b e))
  | .path p, h, _ => placed_path b h
  | .literal value span, _, hspan => (Placed.nil []).node (by simp) hspan _
  | .call ⟨callee, params, ⟨pairs, hash⟩, span⟩, ⟨horder, hpairs, hc, hps, hvs⟩, hspan => by
    have hrest := horder.2.2
    obtain ⟨mid, hparams, -⟩ := hrest.split
    have hcells : CallDraft.InCells
        ⟨expr b callee, exprs b params, pairDrafts b pairs, hash, span⟩ callee.span
        (params.map (·.span)) (pairs.map (·.span)) :=
      ⟨placed_expr b hc horder.2.1, placed_exprs b hps hparams, placed_pairs b hvs hpairs, hpairs⟩
    have hall := (hcells.parts (b.formOf? callee) horder.apart).subset fun m => CallDraft.mem_value
    exact hall.node horder.inside hspan _

theorem placed_exprs (b : Bindings) : ∀ {es : List Expr} {lo hi : Nat}, allPlaced es →
    InOrder lo (es.map (·.span)) hi → Placed (es.map (·.span)) ((exprs b es).flatMap marks)
  | [], _, _, _, _ => .nil _
  | _ :: _, _, _, ⟨h, hs⟩, ho =>
    (placed_expr b h ho.2.1).append (placed_exprs b hs ho.2.2) ho.apart

theorem placed_pairs (b : Bindings) : ∀ {ps : List Pair} {lo hi : Nat}, pairsPlaced ps →
    InOrder lo (ps.map (·.span)) hi → Placed (ps.map (·.span)) ((pairDrafts b ps).flatMap marks)
  | [], _, _, _, _ => .nil _
  | ⟨key, value, span⟩ :: ps, _, _, ⟨hin, h, hs⟩, ho => by
    have hkey := placed_objectKey key.text hin.2.1
    have hvalue := placed_expr b h hin.2.2.2.1
    have hpair : Placed [span] (marks (Draft.node "HashPair" span
        (objectKey key.text key.span ++ [Piece.text ": "] ++ expr b value))) := by
      refine Placed.node ?_ hin.inside ho.2.1 _
      simpa using hkey.append hvalue hin.apart
    exact hpair.append (placed_pairs b hs ho.2.2) ho.apart

end

theorem call_inCells {c : Call} {lo hi : Nat} (h : c.Inner) (ho : InOrder lo c.parts hi) :
    (call b c).InCells c.callee.span (c.params.map (·.span)) (c.hash.pairs.map (·.span)) := by
  obtain ⟨mid, hparams, -⟩ := ho.2.2.split
  exact ⟨placed_expr b h.callee ho.2.1, placed_exprs b h.params hparams,
    placed_pairs b h.values h.pairs, h.pairs⟩

theorem placed_callParts (use : Option FormUse) {c : Call} {lo hi : Nat} (h : c.Inner) (ho : InOrder lo c.parts hi) :
    Placed c.parts ((call b c).parts use) :=
  (call_inCells b h ho).parts use ho.apart

/-- A construct whose code is made of the parts of a call. -/
theorem placed_callNode (use : Option FormUse) {c : Call} (h : c.Placed) {inside : Draft}
    (hs : ∀ m ∈ marks inside, m ∈ (call b c).parts use) (kind : String) :
    Placed [c.span] (marks (Draft.node kind c.span inside)) :=
  ((placed_callParts b use h.inner h.parts).subset hs).node h.parts.inside h.parts.le _

theorem mem_mustacheValue {b : Bindings} {asArgument : Bool} {m : Mustache} {n : Mark}
    (h : n ∈ marks (mustacheValue b asArgument m)) :
    n ∈ (call b m.call).parts (b.formOf? m.call.callee) := by
  unfold mustacheValue at h
  split at h
  · rename_i use huse
    rw [huse]
    exact CallDraft.mem_formExpression h
  · rename_i huse
    rw [huse]
    split at h
    · simpa [CallDraft.parts, CallDraft.hash] using CallDraft.mem_resolve h
    · refine List.mem_append_left _ ?_
      split at h
      · exact h
      · simpa [call] using h

end TypedTemplate.Emit
