/-
Native templates stand in the script. What the scan finds are elements of the text, with an opening tag,
content and a closing tag, one after another; and masking them keeps the length of the text, since what
stands in their place takes as many bytes. A character of the masked text that is no space stands where a
character of the script does, so what is found between such characters is a stretch of the script.
-/
import TypedTemplate.Proofs.Script.Element
import TypedTemplate.Proofs.Text.Place

namespace TypedTemplate

namespace Script.Native

open Text
open TypedTemplate.Span (In InOrder)

variable {cs done before after : List Char} {t : NativeTemplate} {source : String} {p : Progress} {c : Char}
  {ts : List NativeTemplate}

/-! ## Elements -/

/-- A template that stands in a text, by what precedes it, its opening tag, its content and what
follows it. -/
def Stands (cs : List Char) (t : NativeTemplate) : Prop :=
  ∃ before head inside after, cs = before ++ (head ++ (inside ++ (closeTag ++ after))) ∧
    openTag <+: head ∧
    t.content = ⟨byteLength (before ++ head), byteLength (before ++ head ++ inside)⟩ ∧
    t.range = ⟨byteLength before, byteLength (before ++ head ++ inside ++ closeTag)⟩

theorem Stands.inside (h : Stands cs t) : t.range.In 0 (byteLength cs) ∧ t.content.In t.range.start t.range.stop := by
  obtain ⟨before, head, inside, after, rfl, -, hcontent, hrange⟩ := h
  rw [hcontent, hrange]
  refine ⟨⟨Nat.zero_le _, ?_, ?_⟩, ⟨?_, ?_, ?_⟩⟩ <;> simp only [byteLength_append] <;> omega

/-- The tags of an element and its content begin and end between characters. -/
theorem Stands.cuts (h : Stands source.toList t) : t.range.Cuts source ∧ t.content.Cuts source := by
  obtain ⟨before, head, inside, after, hsource, -, hcontent, hrange⟩ := h
  rw [hcontent, hrange]
  refine ⟨⟨String.ofList (head ++ inside ++ closeTag), slice_eq_some_iff.2 ⟨before, after, ?_, rfl, ?_⟩⟩,
    ⟨String.ofList inside, slice_eq_some_iff.2 ⟨before ++ head, closeTag ++ after, ?_, rfl, ?_⟩⟩⟩
  · rw [hsource, String.toList_ofList, List.append_assoc, List.append_assoc]
  · simp only [size_eq_byteLength, String.toList_ofList, byteLength_append, Nat.add_assoc]
  · rw [hsource, String.toList_ofList, List.append_assoc]
  · simp only [size_eq_byteLength, String.toList_ofList, byteLength_append]

theorem Stands.opened (h : Stands cs t) : t.range.start < t.content.start := by
  obtain ⟨before, head, inside, after, -, hhead, hcontent, hrange⟩ := h
  have hpos : 0 < openTag.length := by decide
  have hlength := hhead.length_le
  have hbytes := length_le_byteLength head
  rw [hcontent, hrange]
  simp only [byteLength_append]
  omega

/-- The name of an opening tag ends before the tag does. -/
theorem openTag_prefix {attributes rest : List Char} (h : openTag <+: attributes ++ '>' :: rest) :
    openTag <+: attributes := by
  by_cases hlength : openTag.length ≤ attributes.length
  · exact List.prefix_of_prefix_length_le h (List.prefix_append _ _) hlength
  · exfalso
    have hprefix : attributes ++ ['>'] <+: openTag := by
      refine List.prefix_of_prefix_length_le ⟨rest, ?_⟩ h ?_
      · rw [List.append_assoc]
        rfl
      · rw [List.length_append, List.length_singleton]
        omega
    have hmem : '>' ∈ openTag := hprefix.subset (by simp)
    exact absurd hmem (by decide)

/-! ## Steps of the scan -/

/-- What a step does: it moves on by the characters that it takes, and what it finds are these. -/
structure Step.Moves (p : Progress) (c : Char) (cs : List Char) (s : Step) : Prop where
  pos : s.progress.pos = p.pos + byteLength (c :: cs.take s.taken)
  found : ∀ t, s.found = some t → ∀ before, byteLength before = p.pos →
    Stands (before ++ c :: cs) t ∧ t.range = ⟨p.pos, s.progress.pos⟩

theorem Step.moves_take (p p' : Progress) (hp : p'.pos = p.pos) (c : Char) (cs : List Char) (n : Nat)
    (counts : Bool) : Moves p c cs (.take p' c cs n counts) :=
  ⟨by rw [← hp]; rfl, nofun⟩

theorem pos_popIf (p : Progress) (kinds : List Frame) : (p.popIf kinds).pos = p.pos := by
  unfold Progress.popIf
  split
  · split <;> rfl
  · rfl

theorem Step.moves_literal (p : Progress) (c : Char) (cs : List Char) :
    Moves p c cs (literalStep p c cs) := by
  unfold literalStep
  split
  · exact moves_take p p rfl c cs 1 false
  · split
    · exact moves_take p _ (pos_popIf p _) c cs 0 true
    · split
      · exact moves_take p (p.push .interpolation) rfl c cs 1 true
      · exact moves_take p p rfl c cs 0 false

/-- The step over an element. -/
theorem Step.moves_element {tag content : Nat} (hopen : atOpenTag (c :: cs) = true)
    (h : extent? (c :: cs) = some (tag, content)) :
    Moves p c cs { Step.take p c cs (tag + content + closeTag.length - 1) true with
      found := some (p.template (c :: cs) tag content) } := by
  obtain ⟨attributes, inside, after, hcs, rfl, rfl⟩ := extent_eq_some h
  have hprefix : openTag <+: attributes := openTag_prefix (hcs ▸ openTag_of_atOpenTag hopen)
  refine ⟨rfl, ?_⟩
  rintro _ ⟨⟩ before hbefore
  rw [p.template_eq hcs]
  refine ⟨⟨before, attributes ++ ['>'], inside, after, ?_, ?_, ?_, ?_⟩, ?_⟩
  · rw [hcs, List.append_assoc]
    rfl
  · exact hprefix.trans (List.prefix_append _ _)
  · simp [← hbefore]
  · simp [← hbefore]
  · simp only [Step.take, Progress.pass, take_of_element hcs]

theorem Step.moves_code {s : Step} (h : codeStep p c cs = .ok s) : Moves p c cs s := by
  unfold codeStep at h
  split at h
  · cases h
    exact moves_take p p rfl c cs _ true
  split at h
  · cases h
    exact moves_take p (p.push .literal) rfl c cs 0 true
  split at h
  · cases h
    exact moves_take p p rfl c cs _ false
  split at h
  · cases h
    exact moves_take p p rfl c cs _ false
  split at h
  · cases h
    exact moves_take p p rfl c cs _ true
  split at h
  · rename_i hopen
    split at h
    · cases h
    · rename_i hextent
      cases h
      exact moves_element hopen hextent
  split at h
  · cases h
    exact moves_take p (p.push p.braceFrame) rfl c cs 0 true
  split at h
  · cases h
    exact moves_take p (p.push .paren) rfl c cs 0 true
  split at h
  · cases h
    exact moves_take p _ (pos_popIf p _) c cs 0 true
  split at h
  · cases h
    exact moves_take p _ (pos_popIf p _) c cs 0 true
  · cases h
    exact moves_take p p rfl c cs 0 _

theorem Step.moves {s : Step} (h : step p c cs = .ok s) : Moves p c cs s := by
  unfold step at h
  split at h
  · cases h
    exact moves_literal p c cs
  · exact moves_code h

/-! ## The scan -/

/-- What is found in the rest of a text stands in the whole text, and comes in its order. -/
theorem scanFrom_stands (h : scanFrom p cs = .ok ts) (hdone : byteLength done = p.pos) :
    (∀ t ∈ ts, Stands (done ++ cs) t) ∧
      InOrder p.pos (ts.map (·.range)) (p.pos + byteLength cs) := by
  fun_induction scanFrom p cs generalizing done ts with
  | case1 p =>
    cases h
    exact ⟨by simp, Nat.le_refl _⟩
  | case2 => cases h
  | case3 p c cs s hstep ih =>
    obtain ⟨rest, hrest, h⟩ : ∃ rest, scanFrom s.progress (cs.drop s.taken) = .ok rest ∧
        s.found.toList ++ rest = ts := by
      cases hrest : scanFrom s.progress (cs.drop s.taken) with
      | error e =>
        rw [hrest] at h
        cases h
      | ok rest =>
        rw [hrest] at h
        cases h
        exact ⟨rest, rfl, rfl⟩
    subst h
    have hmoves := Step.moves hstep
    have hsplit : done ++ c :: cs = (done ++ c :: cs.take s.taken) ++ cs.drop s.taken := by
      rw [List.append_assoc, List.cons_append, List.take_append_drop]
    have hpos : byteLength (done ++ c :: cs.take s.taken) = s.progress.pos := by
      rw [byteLength_append, hdone, hmoves.pos]
    have hstop : s.progress.pos + byteLength (cs.drop s.taken) = p.pos + byteLength (c :: cs) := by
      rw [← hdone, ← byteLength_append, hsplit, byteLength_append, hpos]
    obtain ⟨hstands, horder⟩ := ih hrest hpos
    rw [← hsplit] at hstands
    rw [hstop] at horder
    have hle : p.pos ≤ s.progress.pos := by
      rw [hmoves.pos]
      exact Nat.le_add_right _ _
    cases hfound : s.found with
    | none => exact ⟨hstands, horder.mono hle le_rfl⟩
    | some t =>
      obtain ⟨ht, hrange⟩ := hmoves.found t hfound done hdone
      refine ⟨?_, ?_⟩
      · rintro _ (_ | ⟨_, ht'⟩)
        · exact ht
        · exact hstands _ ht'
      · rw [Option.toList_some, List.singleton_append, List.map_cons, hrange]
        exact ⟨le_rfl, hle, horder⟩

theorem scan_stands (h : scan source = .ok ts) :
    (∀ t ∈ ts, Stands source.toList t) ∧ InOrder 0 (ts.map (·.range)) (size source) := by
  obtain ⟨hstands, horder⟩ := scanFrom_stands (p := {}) h (byteLength_nil)
  rw [size_eq_byteLength]
  refine ⟨hstands, ?_⟩
  rwa [Nat.zero_add] at horder

/-! ## Masking -/

/-- A character near the start of an element belongs to the name of its tag. -/
theorem Stands.mem_openTag (h : Stands (before ++ c :: after) t) (hstart : t.range.start ≤ byteLength before)
    (hlt : byteLength before - t.range.start < openTag.length) : c ∈ openTag := by
  obtain ⟨front, head, inside, rest, hcs, ⟨more, rfl⟩, -, hrange⟩ := h
  rw [hrange] at hstart hlt
  obtain ⟨between, rfl, hbetween⟩ := exists_between hcs.symm hstart
  have hlength : (between ++ [c]).length ≤ openTag.length := by
    have := length_le_byteLength between
    rw [byteLength_append, Nat.add_sub_cancel_left] at hlt
    rw [List.length_append, List.length_singleton]
    omega
  have hhere : between ++ [c] <+: between ++ c :: after := ⟨after, by simp⟩
  have htag : openTag <+: between ++ c :: after := by
    rw [← hbetween, List.append_assoc]
    exact List.prefix_append _ _
  have hprefix : between ++ [c] <+: openTag := List.prefix_of_prefix_length_le hhere htag hlength
  exact hprefix.subset (by simp)

/-- The last character of an element ends its closing tag. -/
theorem Stands.eq_of_last (h : Stands (before ++ c :: after) t) (hstop : byteLength before + 1 = t.range.stop) :
    c = '>' := by
  obtain ⟨front, head, inside, rest, hcs, -, -, hrange⟩ := h
  have hclose : closeTag = "</template".toList ++ ['>'] := by decide
  have hcut : before ++ c :: after = (front ++ head ++ inside ++ "</template".toList) ++ '>' :: rest := by
    rw [hcs, hclose]
    simp only [List.append_assoc, List.singleton_append]
  have hlength : byteLength before = byteLength (front ++ head ++ inside ++ "</template".toList) := by
    rw [hrange, hclose] at hstop
    simp only [byteLength_append] at hstop ⊢
    have : byteLength ['>'] = 1 := by decide
    omega
  obtain ⟨-, hrest⟩ := append_inj_of_byteLength hcut hlength
  exact (List.cons.inj hrest).1

theorem byteLength_replicate_space : ∀ n : Nat, byteLength (List.replicate n ' ') = n
  | 0 => rfl
  | n + 1 => by
    rw [List.replicate_succ, byteLength_cons, byteLength_replicate_space n]
    have : ' '.utf8Size = 1 := by decide
    omega

theorem byteLength_maskedChar (h : Stands (before ++ c :: after) t)
    (hin : t.range.contains (byteLength before) = true) :
    byteLength (maskedChar t (byteLength before) c) = c.utf8Size := by
  simp only [Span.contains, Bool.and_eq_true, decide_eq_true_eq] at hin
  have hplaceholder : (placeholder t.placement).all (·.utf8Size == 1) = true := by
    cases t.placement <;> decide
  have hshort : (placeholder t.placement).length ≤ openTag.length := by
    cases t.placement <;> decide
  have htag : openTag.all (·.utf8Size == 1) = true := by decide
  simp only [List.all_eq_true, beq_iff_eq] at hplaceholder htag
  unfold maskedChar
  split
  · -- a character of the placeholder takes the place of one of the tag's name
    rename_i d hd
    obtain ⟨hlt, -⟩ := List.getElem?_eq_some_iff.1 hd
    rw [htag c (h.mem_openTag hin.1 (by omega)), byteLength_cons, byteLength_nil,
      hplaceholder d (List.mem_of_getElem? hd)]
  · split
    · -- the brace that closes the placeholder of a member takes the place of the last `>`
      rename_i hlast
      rw [h.eq_of_last hlast.2]
      decide
    · split
      · rename_i hline
        rw [hline]
        rfl
      · exact byteLength_replicate_space _

/-- What stands in the place of a character is one character or spaces. -/
theorem maskedChar_cases (t : NativeTemplate) (pos : Nat) (c : Char) :
    (∃ d, maskedChar t pos c = [d]) ∨ ∀ x ∈ maskedChar t pos c, x = ' ' := by
  unfold maskedChar
  split
  · exact .inl ⟨_, rfl⟩
  · split
    · exact .inl ⟨_, rfl⟩
    · split
      · exact .inl ⟨_, rfl⟩
      · exact .inr fun x hx => List.eq_of_mem_replicate hx

/-- One step of masking: what takes the place of a character is as long as it is. -/
theorem maskFrom_cons (h : ∀ t ∈ ts, Stands (done ++ c :: cs) t) :
    ∃ chunk, maskFrom ts (byteLength done) (c :: cs) = chunk ++ maskFrom ts (byteLength (done ++ [c])) cs ∧
      byteLength chunk = c.utf8Size ∧ ((∃ d, chunk = [d]) ∨ ∀ x ∈ chunk, x = ' ') := by
  have hdone : byteLength done + c.utf8Size = byteLength (done ++ [c]) := by simp
  rw [maskFrom, hdone]
  refine ⟨_, rfl, ?_⟩
  split
  · rename_i t ht
    have hin : t.range.contains (byteLength done) = true := by simpa using List.find?_some ht
    exact ⟨byteLength_maskedChar (h t (List.mem_of_find?_eq_some ht)) hin, maskedChar_cases t _ c⟩
  · exact ⟨by simp, .inl ⟨c, rfl⟩⟩

theorem stands_after (h : ∀ t ∈ ts, Stands (done ++ c :: cs) t) : ∀ t ∈ ts, Stands (done ++ [c] ++ cs) t := by
  intro t ht
  rw [List.append_assoc]
  exact h t ht

theorem byteLength_maskFrom :
    ∀ {cs done : List Char}, (∀ t ∈ ts, Stands (done ++ cs) t) →
      byteLength (maskFrom ts (byteLength done) cs) = byteLength cs
  | [], _, _ => rfl
  | c :: cs, done, h => by
    obtain ⟨chunk, hmask, hchunk, -⟩ := maskFrom_cons h
    rw [hmask, byteLength_append, hchunk, byteLength_maskFrom (stands_after h), byteLength_cons]

/-- Masking keeps the length of a script. -/
theorem size_mask (h : ∀ t ∈ ts, Stands source.toList t) : size (mask ts source) = size source := by
  have hstands : ∀ t ∈ ts, Stands ([] ++ source.toList) t := h
  rw [size_eq_byteLength, size_eq_byteLength, mask, String.toList_ofList]
  exact byteLength_maskFrom hstands

/-- A character that is no space stands in a masked text where a character of the same length did. -/
theorem exists_of_maskFrom {x : Char} (hx : x ≠ ' ') {back : List Char} :
    ∀ {cs done front : List Char}, (∀ t ∈ ts, Stands (done ++ cs) t) →
      maskFrom ts (byteLength done) cs = front ++ x :: back →
        ∃ before c after, cs = before ++ c :: after ∧ byteLength before = byteLength front ∧
          c.utf8Size = x.utf8Size
  | [], _, front, _, hmask => by simp [maskFrom] at hmask
  | c :: cs, done, front, h, hmask => by
    obtain ⟨chunk, hcons, hchunk, hcases⟩ := maskFrom_cons h
    rw [hcons] at hmask
    -- the character comes after what stands for the first one
    have hlater {front' : List Char} (hfront : front = chunk ++ front')
        (hrest : maskFrom ts (byteLength (done ++ [c])) cs = front' ++ x :: back) :
        ∃ before d after, c :: cs = before ++ d :: after ∧ byteLength before = byteLength front ∧
          d.utf8Size = x.utf8Size := by
      obtain ⟨before, d, after, rfl, hbefore, hd⟩ := exists_of_maskFrom hx (stands_after h) hrest
      refine ⟨c :: before, d, after, rfl, ?_, hd⟩
      rw [hfront, byteLength_cons, byteLength_append, hchunk, hbefore]
    rcases List.append_eq_append_iff.1 hmask with ⟨front', hfront, hrest⟩ | ⟨more, hmore, hrest⟩
    · exact hlater hfront hrest
    · cases more with
      | nil =>
        have hfront : front = chunk ++ [] := by rw [hmore, List.append_nil, List.append_nil]
        exact hlater hfront hrest.symm
      | cons y more =>
        cases hrest
        have hsingle : front = [] ∧ more = [] := by
          rcases hcases with ⟨d, hd⟩ | hspaces
          · have hlength : (front ++ x :: more).length = 1 := by rw [← hmore, hd]; rfl
            rw [List.length_append, List.length_cons] at hlength
            exact ⟨List.length_eq_zero_iff.1 (by omega), List.length_eq_zero_iff.1 (by omega)⟩
          · exact absurd (hspaces x (by rw [hmore]; simp)) hx
        refine ⟨[], c, cs, rfl, by rw [hsingle.1], ?_⟩
        rw [← hchunk, hmore, hsingle.1, hsingle.2]
        simp

/-- Around a character of a masked text that is no space the script is not cut in a character. -/
theorem boundary_of_mask (h : ∀ t ∈ ts, Stands source.toList t) {p : Cursor} (hp : p.On (mask ts source)) {x : Char}
    (hhead : p.rest.head? = some x) (hx : x ≠ ' ') : Boundary source p.pos ∧ Boundary source (p.advance 1).pos := by
  obtain ⟨rest, hrest⟩ := List.head?_eq_some_iff.1 hhead
  obtain ⟨front, hmask, hpos⟩ := hp
  rw [Cursor.ofText, mask, String.toList_ofList, hrest] at hmask
  have hstands : ∀ t ∈ ts, Stands ([] ++ source.toList) t := h
  obtain ⟨before, c, after, hsource, hbefore, hc⟩ := exists_of_maskFrom hx hstands hmask
  have hstart : p.pos = byteLength before := by rw [hpos, hbefore]; exact Nat.zero_add _
  refine ⟨⟨before, c :: after, hsource, hstart⟩, before ++ [c], after, ?_, ?_⟩
  · rw [hsource, List.append_assoc]
    rfl
  · simp [Cursor.advance, hrest, hstart, hc]

end Script.Native

end TypedTemplate
