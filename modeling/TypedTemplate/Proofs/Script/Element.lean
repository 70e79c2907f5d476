/-
Where an element ends. Read from left to right, an opening tag counts one up and a closing tag one down; an
element ends with the first closing tag that brings the count below zero. The search does not count tag by
tag: it looks for the next closing tag, then for an opening tag before it, and starts again inside what it
found. Tags do not overlap, since `<` stands only at the start of one, so what each turn passes over holds
one tag and the count goes on from there.
-/
import TypedTemplate.Proofs.Text.Slice
import TypedTemplate.Script.Native

namespace TypedTemplate.Script.Native

open Text

variable {cs word inside after : List Char} {n depth : Nat} {c : Char}

/-! ## Tags and their count -/

/-- Whether an opening tag stands at a place: its name, and a character that ends the name. -/
def opensAt (cs : List Char) (n : Nat) : Bool :=
  ['>', ' ', '\t', '\r', '\n'].any fun c => (openTag ++ [c]).isPrefixOf (cs.drop n)

/-- Whether a closing tag stands at a place. -/
def closesAt (cs : List Char) (n : Nat) : Bool := closeTag.isPrefixOf (cs.drop n)

/-- How many more opening than closing tags start within the first `n` characters. -/
def tally (cs : List Char) (n : Nat) : Int :=
  ((List.range n).countP (opensAt cs) : Int) - ((List.range n).countP (closesAt cs) : Int)

/-- The closing tag at `n` is the first one that brings the count to -1, if it starts at `depth`. -/
structure Ends (depth : Nat) (cs : List Char) (n : Nat) : Prop where
  closes : closesAt cs n = true
  count : depth + tally cs (n + 1) = -1
  first : ∀ m < n, closesAt cs m = true → depth + tally cs (m + 1) ≠ -1

theorem atOpenTag_iff : atOpenTag cs = true ↔ ∃ c ∈ ['>', ' ', '\t', '\r', '\n'], openTag ++ [c] <+: cs := by
  unfold atOpenTag
  constructor
  · intro h
    split at h
    · rename_i c rest hstrip
      refine ⟨c, ?_, rest, ?_⟩
      · simp only [Bool.or_eq_true, beq_iff_eq] at h
        simp only [List.mem_cons, List.not_mem_nil, or_false]
        tauto
      · rw [stripStart?_eq_some hstrip, List.append_assoc]
        rfl
    · cases h
  · rintro ⟨c, hc, rest, rfl⟩
    rw [List.append_assoc, stripStart?, if_pos (List.isPrefixOf_iff_prefix.2 (List.prefix_append _ _)),
      List.drop_left]
    simp only [List.mem_cons, List.not_mem_nil, or_false] at hc
    rcases hc with rfl | rfl | rfl | rfl | rfl <;> rfl

theorem opensAt_eq (cs : List Char) (n : Nat) : opensAt cs n = atOpenTag (cs.drop n) := by
  rw [Bool.eq_iff_iff, atOpenTag_iff, opensAt, List.any_eq_true]
  simp only [List.isPrefixOf_iff_prefix]

theorem opensAt_drop (cs : List Char) (k n : Nat) : opensAt (cs.drop k) n = opensAt cs (k + n) := by
  rw [opensAt, opensAt, List.drop_drop]

theorem closesAt_drop (cs : List Char) (k n : Nat) : closesAt (cs.drop k) n = closesAt cs (k + n) := by
  rw [closesAt, closesAt, List.drop_drop]

/-- The count goes on from any place. -/
theorem tally_add (cs : List Char) (k n : Nat) :
    tally cs (k + n) = tally cs k + tally (cs.drop k) n := by
  have hopens : opensAt cs ∘ (k + ·) = opensAt (cs.drop k) := funext fun m => (opensAt_drop cs k m).symm
  have hcloses : closesAt cs ∘ (k + ·) = closesAt (cs.drop k) := funext fun m => (closesAt_drop cs k m).symm
  simp only [tally, List.range_add, List.countP_append, List.countP_map, hopens, hcloses]
  push_cast
  ring

theorem tally_eq_zero {k : Nat} (hopens : ∀ m < k, opensAt cs m = false) (hcloses : ∀ m < k, closesAt cs m = false) :
    tally cs k = 0 := by
  have hopen : (List.range k).countP (opensAt cs) = 0 :=
    List.countP_eq_zero.2 fun m hm => by simp [hopens m (List.mem_range.1 hm)]
  have hclose : (List.range k).countP (closesAt cs) = 0 :=
    List.countP_eq_zero.2 fun m hm => by simp [hcloses m (List.mem_range.1 hm)]
  simp [tally, hopen, hclose]

/-! ## Tags do not overlap -/

theorem openTag_of_opensAt (h : opensAt cs n = true) : openTag <+: cs.drop n := by
  rw [opensAt_eq, atOpenTag_iff] at h
  obtain ⟨c, -, h⟩ := h
  exact (List.prefix_append _ _).trans h

theorem closeTag_of_closesAt (h : closesAt cs n = true) : closeTag <+: cs.drop n :=
  List.isPrefixOf_iff_prefix.1 h

/-- What stands in a word that is found at a place. -/
theorem getElem?_of_prefix_drop {j : Nat} (h : word <+: cs.drop n) (hj : j < word.length) : cs[n + j]? = word[j]? := by
  obtain ⟨rest, hrest⟩ := h
  rw [← List.getElem?_drop, ← hrest, List.getElem?_append_left hj]

theorem getElem?_of_tag (h : opensAt cs n = true ∨ closesAt cs n = true) : cs[n]? = some '<' := by
  rcases h with h | h
  · exact getElem?_of_prefix_drop (j := 0) (openTag_of_opensAt h) (by decide)
  · exact getElem?_of_prefix_drop (j := 0) (closeTag_of_closesAt h) (by decide)

/-- Where a word stands that has `<` only at its start, no tag starts inside. -/
theorem not_tag_inside {m : Nat} (h : word <+: cs.drop n) (hword : (word.drop 1).all (· != '<') = true) (hn : n < m)
    (hm : m < n + word.length) : opensAt cs m = false ∧ closesAt cs m = false := by
  have hget : cs[m]? ≠ some '<' := by
    intro hlt
    have hchar := getElem?_of_prefix_drop h (show m - n < word.length by omega)
    rw [Nat.add_sub_cancel' hn.le, hlt] at hchar
    have hmem : '<' ∈ word.drop 1 := by
      refine List.mem_of_getElem? (i := m - n - 1) ?_
      rw [List.getElem?_drop, ← hchar.symm]
      congr 1
      omega
    have := List.all_eq_true.1 hword _ hmem
    simp at this
  constructor
  · exact Bool.eq_false_of_not_eq_true fun hopen => hget (getElem?_of_tag (.inl hopen))
  · exact Bool.eq_false_of_not_eq_true fun hclose => hget (getElem?_of_tag (.inr hclose))

theorem not_closesAt_of_opensAt (h : opensAt cs n = true) : closesAt cs n = false := by
  refine Bool.eq_false_of_not_eq_true fun hclose => ?_
  have hopen := getElem?_of_prefix_drop (j := 1) (openTag_of_opensAt h) (by decide)
  rw [getElem?_of_prefix_drop (j := 1) (closeTag_of_closesAt hclose) (by decide)] at hopen
  exact absurd hopen (by decide)

/-! ## What is looked for in a turn -/

theorem openTagWithin_eq_some :
    ∀ {cs : List Char} {limit n : Nat}, openTagWithin limit cs = some n →
      opensAt cs n = true ∧ n + openTag.length ≤ limit ∧ ∀ m < n, opensAt cs m = false
  | [], _, _, h => by cases h
  | c :: cs, limit, n, h => by
    rw [openTagWithin] at h
    split at h
    · cases h
    · rename_i hlimit
      split at h
      · rename_i hopen
        cases h
        refine ⟨by rw [opensAt_eq]; exact hopen, by omega, by simp⟩
      · rename_i hopen
        obtain ⟨k, hk, rfl⟩ := Option.map_eq_some_iff.1 h
        obtain ⟨hat, hle, hbefore⟩ := openTagWithin_eq_some hk
        have hpos : 0 < openTag.length := by decide
        refine ⟨?_, by omega, fun m hm => ?_⟩
        · rw [opensAt_eq] at hat ⊢
          exact hat
        · cases m with
          | zero =>
            rw [opensAt_eq]
            exact Bool.eq_false_of_not_eq_true hopen
          | succ m =>
            have := hbefore m (by omega)
            rw [opensAt_eq] at this ⊢
            exact this

theorem openTagWithin_eq_none :
    ∀ {cs : List Char} {limit : Nat}, openTagWithin limit cs = none →
      ∀ m, m + openTag.length ≤ limit → opensAt cs m = false
  | [], _, _, m, _ => by
    rw [opensAt_eq, List.drop_nil]
    rfl
  | c :: cs, limit, h, m, hm => by
    rw [openTagWithin] at h
    split at h
    · omega
    · split at h
      · cases h
      · rename_i hopen
        cases m with
        | zero =>
          rw [opensAt_eq]
          exact Bool.eq_false_of_not_eq_true hopen
        | succ m =>
          have := openTagWithin_eq_none (Option.map_eq_none_iff.1 h) m (by omega)
          rw [opensAt_eq] at this ⊢
          exact this

/-- Before the next closing tag there is no other. -/
theorem closesAt_of_splitAtFirst (h : splitAtFirst closeTag cs = some (inside, after)) :
    closesAt cs inside.length = true ∧ ∀ m < inside.length, closesAt cs m = false := by
  constructor
  · rw [closesAt, splitAtFirst_eq_some h, List.drop_left]
    exact List.isPrefixOf_iff_prefix.2 (List.prefix_append _ _)
  · intro m hm
    refine Bool.eq_false_of_not_eq_true fun hclose => ?_
    exact not_prefix_of_splitAtFirst h m hm (closeTag_of_closesAt hclose)

/-- Without an opening tag that ends before the next closing tag, there is none that starts before it. -/
theorem not_opensAt_before (hcloses : closesAt cs n = true) (hnone : openTagWithin n cs = none) {m : Nat} (hm : m < n) :
    opensAt cs m = false := by
  by_cases hle : m + openTag.length ≤ n
  · exact openTagWithin_eq_none hnone m hle
  · refine Bool.eq_false_of_not_eq_true fun hopen => ?_
    have hinside := not_tag_inside (openTag_of_opensAt hopen) (by decide) hm (by omega)
    rw [hinside.2] at hcloses
    cases hcloses

/-! ## The count over a turn -/

/-- A stretch that closes nothing is passed over, and the count goes on from there. -/
theorem ends_iff_drop {depth' k : Nat} (hpass : ∀ m < k, closesAt cs m = true → depth + tally cs (m + 1) ≠ -1)
    (hcount : (depth : Int) + tally cs k = depth') (n : Nat) :
    Ends depth cs n ↔ k ≤ n ∧ Ends depth' (cs.drop k) (n - k) := by
  have hgo (m : Nat) : (depth : Int) + tally cs (k + m + 1) = depth' + tally (cs.drop k) (m + 1) := by
    rw [Nat.add_assoc, tally_add, ← hcount]
    ring
  constructor
  · rintro ⟨hcloses, hend, hfirst⟩
    have hle : k ≤ n := by
      by_contra hlt
      exact hpass n (by omega) hcloses hend
    obtain ⟨j, rfl⟩ := Nat.exists_eq_add_of_le hle
    rw [Nat.add_sub_cancel_left]
    refine ⟨hle, by rw [closesAt_drop]; exact hcloses, by rw [← hgo]; exact hend, fun m hm hclose => ?_⟩
    rw [← hgo]
    rw [closesAt_drop] at hclose
    exact hfirst (k + m) (by omega) hclose
  · rintro ⟨hle, hcloses, hend, hfirst⟩
    obtain ⟨j, rfl⟩ := Nat.exists_eq_add_of_le hle
    rw [Nat.add_sub_cancel_left] at hcloses hend hfirst
    rw [closesAt_drop] at hcloses
    refine ⟨hcloses, by rw [hgo]; exact hend, fun m hm hclose => ?_⟩
    by_cases hmk : m < k
    · exact hpass m hmk hclose
    · obtain ⟨i, rfl⟩ := Nat.exists_eq_add_of_le (Nat.le_of_not_lt hmk)
      rw [hgo]
      exact hfirst i (by omega) (by rw [closesAt_drop]; exact hclose)

/-- An element ends at one place. -/
theorem Ends.unique {n' : Nat} (h : Ends depth cs n) (h' : Ends depth cs n') : n = n' := by
  rcases Nat.lt_trichotomy n n' with hlt | heq | hlt
  · exact absurd h.count (h'.first n hlt h.closes)
  · exact heq
  · exact absurd h'.count (h.first n' hlt h'.closes)

/-- The count at a tag. -/
theorem tally_tag (h : word <+: cs.drop n) (hword : (word.drop 1).all (· != '<') = true) (hpos : 0 < word.length) :
    tally cs (n + word.length) = tally cs (n + 1) := by
  obtain ⟨k, hk⟩ : ∃ k, word.length = 1 + k := Nat.exists_eq_add_of_le hpos
  have hnone : tally (cs.drop (n + 1)) k = 0 := by
    refine tally_eq_zero (fun m hm => ?_) fun m hm => ?_
    · rw [opensAt_drop]
      exact (not_tag_inside h hword (by omega) (by omega)).1
    · rw [closesAt_drop]
      exact (not_tag_inside h hword (by omega) (by omega)).2
  rw [hk, ← Nat.add_assoc, tally_add, hnone, add_zero]

theorem tally_succ (cs : List Char) (n : Nat) :
    tally cs (n + 1) = tally cs n + (if opensAt cs n then 1 else 0) - (if closesAt cs n then 1 else 0) := by
  simp only [tally, List.range_succ, List.countP_append, List.countP_singleton]
  push_cast
  ring

section

variable (hsplit : splitAtFirst closeTag cs = some (inside, after)) (hopen : openTagWithin inside.length cs = none)
include hsplit hopen

omit hopen in
/-- A turn that goes into an element. -/
theorem ends_iff_of_open (hopen : openTagWithin inside.length cs = some n) (stop : Nat) :
    Ends depth cs stop ↔
      n + openTag.length ≤ stop ∧
        Ends (depth + 1) (cs.drop (n + openTag.length)) (stop - (n + openTag.length)) := by
  obtain ⟨hat, hle, hbefore⟩ := openTagWithin_eq_some hopen
  obtain ⟨-, hnone⟩ := closesAt_of_splitAtFirst hsplit
  have hclear : ∀ m < n + openTag.length, closesAt cs m = false := fun m hm => hnone m (by omega)
  refine ends_iff_drop (fun m hm hclose => ?_) ?_ stop
  · rw [hclear m hm] at hclose
    cases hclose
  · rw [tally_tag (openTag_of_opensAt hat) (by decide) (by decide), tally_succ,
      tally_eq_zero hbefore fun m hm => hclear m (by omega), hat, not_closesAt_of_opensAt hat]
    simp

/-- Before the next closing tag there is nothing to count, and with it the count goes down. -/
theorem tally_of_close : tally cs (inside.length + 1) = -1 := by
  obtain ⟨hat, hnone⟩ := closesAt_of_splitAtFirst hsplit
  have hnot : opensAt cs inside.length = false :=
    Bool.eq_false_of_not_eq_true fun hopens => by
      rw [not_closesAt_of_opensAt hopens] at hat
      cases hat
  rw [tally_succ, tally_eq_zero (fun m hm => not_opensAt_before hat hopen hm) hnone, hat, hnot]
  rfl

/-- A turn that leaves an element. -/
theorem ends_iff_of_close (stop : Nat) :
    Ends (depth + 1) cs stop ↔ inside.length + closeTag.length ≤ stop ∧
      Ends depth (cs.drop (inside.length + closeTag.length)) (stop - (inside.length + closeTag.length)) := by
  obtain ⟨hat, hnone⟩ := closesAt_of_splitAtFirst hsplit
  have htally := tally_of_close hsplit hopen
  refine ends_iff_drop (fun m hm hclose => ?_) ?_ stop
  · rcases Nat.lt_trichotomy m inside.length with hlt | rfl | hlt
    · rw [hnone m hlt] at hclose
      cases hclose
    · rw [htally]
      push_cast
      omega
    · rw [(not_tag_inside (closeTag_of_closesAt hat) (by decide) hlt hm).2] at hclose
      cases hclose
  · rw [tally_tag (closeTag_of_closesAt hat) (by decide) (by decide), htally]
    push_cast
    ring

end

/-- The search ends at the first closing tag that brings the count to -1. -/
theorem contentLength_eq_some_iff : contentLength depth cs = some n ↔ Ends depth cs n := by
  fun_induction contentLength depth cs generalizing n with
  | case1 depth =>
    refine iff_of_false (by simp) fun h => ?_
    have hcloses := h.closes
    rw [closesAt, List.drop_nil] at hcloses
    exact absurd hcloses (by decide)
  | case2 depth c cs hnone =>
    refine iff_of_false (by simp) fun h => ?_
    exact not_prefix_of_splitAtFirst_eq_none hnone n (closeTag_of_closesAt h.closes)
  | case3 c cs inside after hsplit k depth hopen ih =>
    rw [ends_iff_of_open hsplit hopen, Option.map_eq_some_iff]
    constructor
    · rintro ⟨m, hm, rfl⟩
      rw [Nat.add_sub_cancel]
      exact ⟨Nat.le_add_left _ _, ih.1 hm⟩
    · rintro ⟨hle, hends⟩
      exact ⟨_, ih.2 hends, Nat.sub_add_cancel hle⟩
  | case4 c cs inside after hsplit hopen =>
    obtain ⟨hat, hnone⟩ := closesAt_of_splitAtFirst hsplit
    have hends : Ends 0 (c :: cs) inside.length := by
      refine ⟨hat, by rw [tally_of_close hsplit hopen]; rfl, fun m hm hclose => ?_⟩
      rw [hnone m hm] at hclose
      cases hclose
    constructor
    · rintro ⟨⟩
      exact hends
    · intro h
      rw [hends.unique h]
  | case5 c cs inside after hsplit depth hopen ih =>
    rw [ends_iff_of_close hsplit hopen, Option.map_eq_some_iff]
    constructor
    · rintro ⟨m, hm, rfl⟩
      rw [Nat.add_sub_cancel]
      exact ⟨Nat.le_add_left _ _, ih.1 hm⟩
    · rintro ⟨hle, hends⟩
      exact ⟨_, ih.2 hends, Nat.sub_add_cancel hle⟩

theorem contentLength_eq_none_iff : contentLength depth cs = none ↔ ∀ n, ¬ Ends depth cs n := by
  rw [Option.eq_none_iff_forall_ne_some]
  exact forall_congr' fun n => not_congr contentLength_eq_some_iff

/-- Where an element ends, its closing tag stands. -/
theorem Ends.split (h : Ends depth cs n) : ∃ inside after, cs = inside ++ (closeTag ++ after) ∧ n = inside.length := by
  obtain ⟨after, hafter⟩ := closeTag_of_closesAt h.closes
  have hle : n ≤ cs.length := by
    by_contra hlt
    rw [List.drop_eq_nil_of_le (by omega)] at hafter
    exact absurd (List.append_eq_nil_iff.1 hafter).1 (by decide)
  exact ⟨cs.take n, after, by rw [hafter, List.take_append_drop], (List.length_take_of_le hle).symm⟩

/-! ## Elements -/

theorem extent_eq_some_iff {tag content : Nat} :
    extent? cs = some (tag, content) ↔ ∃ attributes rest, cs = attributes ++ '>' :: rest ∧ '>' ∉ attributes ∧
      tag = attributes.length + 1 ∧ Ends 0 rest content := by
  unfold extent?
  constructor
  · intro h
    obtain ⟨⟨attributes, rest⟩, hsplit, h⟩ := Option.bind_eq_some_iff.1 h
    obtain ⟨n, hcontent, h⟩ := Option.bind_eq_some_iff.1 h
    cases h
    obtain ⟨hcs, hfirst⟩ := splitAtFirst_singleton.1 hsplit
    exact ⟨attributes, rest, hcs, hfirst, rfl, contentLength_eq_some_iff.1 hcontent⟩
  · rintro ⟨attributes, rest, hcs, hfirst, rfl, hends⟩
    simp [splitAtFirst_singleton.2 ⟨hcs, hfirst⟩, contentLength_eq_some_iff.2 hends]

theorem extent_eq_none_iff :
    extent? cs = none ↔ '>' ∉ cs ∨
      ∃ attributes rest, cs = attributes ++ '>' :: rest ∧ '>' ∉ attributes ∧ ∀ n, ¬ Ends 0 rest n := by
  unfold extent?
  cases hsplit : splitAtFirst ['>'] cs with
  | none =>
    have hnone : '>' ∉ cs := by
      intro hmem
      obtain ⟨front, back, rfl⟩ := List.append_of_mem hmem
      refine not_prefix_of_splitAtFirst_eq_none hsplit front.length ⟨back, ?_⟩
      simp
    simp [hnone]
  | some split =>
    obtain ⟨attributes, rest⟩ := split
    obtain ⟨hcs, hfirst⟩ := splitAtFirst_singleton.1 hsplit
    constructor
    · intro h
      refine .inr ⟨attributes, rest, hcs, hfirst, contentLength_eq_none_iff.1 ?_⟩
      cases hcontent : contentLength 0 rest with
      | none => rfl
      | some n => simp [hcontent] at h
    · rintro (hnone | ⟨attributes', rest', hcs', hfirst', hends⟩)
      · exact absurd (by rw [hcs]; simp) hnone
      · cases hsplit.symm.trans (splitAtFirst_singleton.2 ⟨hcs', hfirst'⟩)
        simp [contentLength_eq_none_iff.2 hends]

theorem extent_eq_some {tag content : Nat} (h : extent? cs = some (tag, content)) :
    ∃ attributes inside after, cs = attributes ++ '>' :: (inside ++ (closeTag ++ after)) ∧
      tag = attributes.length + 1 ∧ content = inside.length := by
  obtain ⟨attributes, rest, hcs, -, htag, hends⟩ := extent_eq_some_iff.1 h
  obtain ⟨inside, after, rfl, hlength⟩ := hends.split
  exact ⟨attributes, inside, after, hcs, htag, hlength⟩

theorem openTag_of_atOpenTag (h : atOpenTag cs = true) : openTag <+: cs := by
  obtain ⟨c, -, h⟩ := atOpenTag_iff.1 h
  exact (List.prefix_append _ _).trans h

theorem eq_of_atOpenTag (h : atOpenTag (c :: cs) = true) : c = '<' := by
  obtain ⟨rest, hrest⟩ := openTag_of_atOpenTag h
  exact (List.cons.inj hrest).1.symm

/-- A step at an opening tag takes an element, or finds none. -/
theorem codeStep_of_atOpenTag {p : Progress} (h : atOpenTag (c :: cs) = true) :
    (extent? (c :: cs) = none → codeStep p c cs = .error ⟨⟨p.pos, p.pos + openTag.length⟩⟩) ∧
      ∀ tag content, extent? (c :: cs) = some (tag, content) →
        codeStep p c cs = .ok { Step.take p c cs (tag + content + closeTag.length - 1) true with
          found := some (p.template (c :: cs) tag content) } := by
  obtain rfl := eq_of_atOpenTag h
  constructor
  · intro hnone
    simp [codeStep, h, hnone]
  · intro tag content hsome
    simp [codeStep, h, hsome]

/-- The element that is taken, by its parts. -/
theorem Progress.template_eq (p : Progress) {tag : List Char} (h : cs = tag ++ '>' :: (inside ++ (closeTag ++ after))) :
    p.template cs (tag.length + 1) inside.length =
      ⟨⟨p.pos, p.pos + byteLength (tag ++ '>' :: (inside ++ closeTag))⟩,
        ⟨p.pos + byteLength (tag ++ ['>']), p.pos + byteLength (tag ++ '>' :: inside)⟩, p.placement⟩ := by
  have hall : cs = (tag ++ ['>']) ++ (inside ++ (closeTag ++ after)) := by
    rw [h, List.append_assoc]
    rfl
  have htag : cs.take (tag.length + 1) = tag ++ ['>'] := by
    rw [hall]
    exact List.take_left' (by simp)
  have hinside : (cs.drop (tag.length + 1)).take inside.length = inside := by
    rw [hall, List.drop_left' (by simp)]
    exact List.take_left
  have hclose : closeTag.length = byteLength closeTag := by decide
  simp only [Progress.template, htag, hinside, hclose, byteLength_append, byteLength_cons, byteLength_nil,
    Nat.add_assoc, Nat.add_zero]

/-- The characters that are taken are those of the element. -/
theorem take_of_element {tag : List Char} (h : c :: cs = tag ++ '>' :: (inside ++ (closeTag ++ after))) :
    c :: cs.take (tag.length + 1 + inside.length + closeTag.length - 1) =
      tag ++ '>' :: (inside ++ closeTag) := by
  have hall : c :: cs = (tag ++ '>' :: (inside ++ closeTag)) ++ after := by
    rw [h]
    simp
  have hlength : tag.length + 1 + inside.length + closeTag.length - 1 + 1 =
      (tag ++ '>' :: (inside ++ closeTag)).length := by
    simp only [List.length_append, List.length_cons]
    omega
  rw [← List.take_succ_cons, hlength, hall, List.take_left]

/-- At an opening tag the scan takes the element up to its matching tag: the first closing tag, after the first
`>`, that brings the count of opening less closing tags to -1. The element is not closed exactly if there is no
`>`, or no such closing tag after it. -/
theorem element_ends_with_matching_tag {p : Progress} {c : Char} {cs : List Char}
    (hopen : atOpenTag (c :: cs) = true) :
    (∀ t, (∃ s, codeStep p c cs = .ok s ∧ s.found = some t ∧ s.progress.pos = t.range.stop) ↔
      ∃ tag inside after, c :: cs = tag ++ '>' :: (inside ++ (closeTag ++ after)) ∧ '>' ∉ tag ∧
        Ends 0 (inside ++ (closeTag ++ after)) inside.length ∧
        t = ⟨⟨p.pos, p.pos + byteLength (tag ++ '>' :: (inside ++ closeTag))⟩,
          ⟨p.pos + byteLength (tag ++ ['>']), p.pos + byteLength (tag ++ '>' :: inside)⟩, p.placement⟩) ∧
      ∀ e, codeStep p c cs = .error e ↔ e = ⟨⟨p.pos, p.pos + openTag.length⟩⟩ ∧
        ('>' ∉ c :: cs ∨
          ∃ tag rest, c :: cs = tag ++ '>' :: rest ∧ '>' ∉ tag ∧ ∀ n, ¬ Ends 0 rest n) := by
  obtain ⟨hnone, hsome⟩ := codeStep_of_atOpenTag (p := p) hopen
  rw [← extent_eq_none_iff]
  cases hextent : extent? (c :: cs) with
  | none =>
    rw [hnone hextent]
    refine ⟨fun t => ?_, fun e => by simp [eq_comm]⟩
    constructor
    · rintro ⟨s, hs, -⟩
      cases hs
    · rintro ⟨tag, inside, after, hcs, hfirst, hends, -⟩
      have := extent_eq_some_iff.2 ⟨tag, _, hcs, hfirst, rfl, hends⟩
      rw [hextent] at this
      cases this
  | some extent =>
    obtain ⟨tagLength, contentLength⟩ := extent
    rw [hsome _ _ hextent]
    refine ⟨fun t => ?_, fun e => by simp⟩
    obtain ⟨tag, rest, hcs, hfirst, rfl, hends⟩ := extent_eq_some_iff.1 hextent
    obtain ⟨inside, after, rfl, rfl⟩ := hends.split
    constructor
    · rintro ⟨s, hs, hfound, -⟩
      cases hs
      cases hfound
      exact ⟨tag, inside, after, hcs, hfirst, hends, p.template_eq hcs⟩
    · rintro ⟨tag', inside', after', hcs', hfirst', hends', rfl⟩
      have hextent' := extent_eq_some_iff.2 ⟨tag', _, hcs', hfirst', rfl, hends'⟩
      rw [hextent] at hextent'
      obtain ⟨htag, hinside⟩ := Prod.mk.inj (Option.some.inj hextent')
      refine ⟨_, rfl, ?_, ?_⟩
      · rw [htag, hinside, p.template_eq hcs']
      · show p.pos + byteLength (c :: cs.take _) = _
        rw [htag, hinside, take_of_element hcs']

theorem element_ends_with_matching_tag_nested :
    atOpenTag "<template a><template >x</template></template>y".toList = true ∧
      ∃ s, codeStep {} '<' "template a><template >x</template></template>y".toList = .ok s ∧
        s.found = some ⟨⟨0, 46⟩, ⟨12, 35⟩, .topLevel⟩ ∧ s.progress.pos = 46 := by
  have hopen : atOpenTag "<template a><template >x</template></template>y".toList = true := by decide
  refine ⟨hopen, ((element_ends_with_matching_tag hopen).1 ⟨⟨0, 46⟩, ⟨12, 35⟩, .topLevel⟩).2 ?_⟩
  exact ⟨"<template a".toList, "<template >x</template>".toList, ['y'], by decide, by decide,
    ⟨by decide, by decide, by decide⟩, by decide⟩

end TypedTemplate.Script.Native
