/-
Masking by bytes and by characters. What stands at a position of the masked bytes depends on the byte there and
on the element around it alone: elements do not overlap, so each byte is written for one of them. An element
begins and ends between characters, and its placeholder stands over its tags, which are ASCII; so whole
characters are written over, and what comes out is the text that masking by characters gives.
-/
import TypedTemplate.Proofs.Script.Native
import TypedTemplate.Proofs.Script.Walk.Run

namespace TypedTemplate.Script.Native

open Text
open TypedTemplate.Span (InOrder)

namespace Walk

variable {bs : List UInt8} {i : Nat} {t : NativeTemplate} {ts : List NativeTemplate} {before after cs : List Char}
  {c : Char}

/-! ## Bytes of one element -/

/-- What takes the place of the byte `b` at a position of an element. -/
def maskedByte (t : NativeTemplate) (i : Nat) (b : UInt8) : UInt8 :=
  (placeholder t.placement)[i - t.range.start]?.elim
    (if t.placement = .classMember ∧ i + 1 = t.range.stop then byte '}'
      else if b = byte '\n' then b else byte ' ')
    byte

theorem overwrite_eq {new : List UInt8} {start : Nat} (h : start + new.length ≤ bs.length) :
    overwrite bs start new = .ok (bs.mapIdx fun i b => if start ≤ i then new[i - start]?.getD b else b) := by
  rw [overwrite, if_pos h]
  refine congrArg Except.ok (List.ext_getElem? fun i => ?_)
  have htake : (bs.take start).length = start := List.length_take_of_le (by omega)
  rw [List.getElem?_mapIdx, List.append_assoc, List.getElem?_append, htake]
  by_cases hi : i < start
  · rw [if_pos hi, List.getElem?_take_of_lt hi]
    simp [Nat.not_le.2 hi]
  · rw [if_neg hi, List.getElem?_append]
    by_cases hnew : i - start < new.length
    · have hbs : i < bs.length := by omega
      rw [if_pos hnew, List.getElem?_eq_getElem hnew, List.getElem?_eq_getElem hbs, Option.map_some,
        if_pos (Nat.not_lt.1 hi)]
      rfl
    · have hend : start + new.length + (i - start - new.length) = i := by omega
      rw [if_neg hnew, List.getElem?_drop, hend, List.getElem?_eq_none (Nat.not_lt.1 hnew)]
      simp

theorem contains_iff {s : Span} : s.contains i = true ↔ s.start ≤ i ∧ i < s.stop := by
  simp [Span.contains]

/-- Bytes written over by a function of themselves. -/
theorem overwrite_map {s : Span} (hstart : s.start ≤ s.stop) (hstop : s.stop ≤ bs.length) (f : UInt8 → UInt8) :
    overwrite bs s.start (((bs.drop s.start).take (s.stop - s.start)).map f) =
      .ok (bs.mapIdx fun i b => if s.contains i then f b else b) := by
  have hlength : (((bs.drop s.start).take (s.stop - s.start)).map f).length = s.stop - s.start := by
    rw [List.length_map, List.length_take, List.length_drop]
    omega
  rw [overwrite_eq (by omega)]
  refine congrArg Except.ok (List.mapIdx_eq_mapIdx_iff.2 fun i hi => ?_)
  by_cases hin : s.contains i = true
  · obtain ⟨hle, hlt⟩ := contains_iff.1 hin
    have hpos : s.start + (i - s.start) = i := by omega
    rw [if_pos hin, if_pos hle, List.getElem?_map, List.getElem?_take_of_lt (by omega),
      List.getElem?_drop, hpos, List.getElem?_eq_getElem hi]
    rfl
  · rw [if_neg hin]
    by_cases hle : s.start ≤ i
    · have hout : s.stop - s.start ≤ i - s.start := by
        have := mt contains_iff.2 hin
        omega
      rw [if_pos hle, List.getElem?_eq_none (by omega)]
      rfl
    · rw [if_neg hle]

/-- The placeholder written over an element whose bytes were blanked. -/
theorem marked_eq (h : t.range.start + (placeholder t.placement).length < t.range.stop) (i : Nat) (blank b : UInt8) :
    (if t.range.start ≤ i then ((placeholder t.placement).map byte)[i - t.range.start]?.getD
        (if t.range.contains i then blank else b)
      else if t.range.contains i then blank else b) =
      if t.range.contains i then (placeholder t.placement)[i - t.range.start]?.elim blank byte else b := by
  by_cases hin : t.range.contains i = true
  · rw [if_pos hin, if_pos hin, if_pos (contains_iff.1 hin).1, List.getElem?_map]
    cases (placeholder t.placement)[i - t.range.start]? <;> rfl
  · rw [if_neg hin, if_neg hin]
    by_cases hle : t.range.start ≤ i
    · have hout : ((placeholder t.placement).map byte).length ≤ i - t.range.start := by
        have := mt contains_iff.2 hin
        rw [List.length_map]
        omega
      rw [if_pos hle, List.getElem?_eq_none hout]
      rfl
    · rw [if_neg hle]

/-- The bytes of an element are written over, and no others. -/
theorem maskElement_eq (hstart : t.range.start + (placeholder t.placement).length < t.range.stop)
    (hstop : t.range.stop ≤ bs.length) :
    maskElement bs t = .ok (bs.mapIdx fun i b => if t.range.contains i then maskedByte t i b else b) := by
  have hblank := overwrite_map (by omega) hstop fun b => if b = byte '\n' then b else byte ' '
  have hmark : ∀ blanked : List UInt8, blanked.length = bs.length →
      overwrite blanked t.range.start ((placeholder t.placement).map byte) = .ok (blanked.mapIdx fun i b =>
        if t.range.start ≤ i then ((placeholder t.placement).map byte)[i - t.range.start]?.getD b else b) := by
    intro blanked hblanked
    refine overwrite_eq ?_
    rw [List.length_map]
    omega
  rw [maskElement, if_neg (by omega)]
  show (overwrite _ _ _ >>= _) = _
  rw [hblank]
  show (overwrite _ _ _ >>= _) = _
  rw [hmark _ List.length_mapIdx]
  show (if _ then _ else _) = _
  by_cases hclass : t.placement = .classMember
  · rw [if_pos hclass, overwrite_eq (by simp; omega), List.mapIdx_mapIdx, List.mapIdx_mapIdx]
    refine congrArg Except.ok (List.mapIdx_eq_mapIdx_iff.2 fun i hi => ?_)
    simp only [Function.comp_apply, marked_eq hstart, maskedByte]
    by_cases hlast : i + 1 = t.range.stop
    · have hin : t.range.contains i = true := contains_iff.2 (by omega)
      have hnone : (placeholder t.placement)[i - t.range.start]? = none := List.getElem?_eq_none (by omega)
      have hboth : t.placement = .classMember ∧ i + 1 = t.range.stop := ⟨hclass, hlast⟩
      have hzero : i - (t.range.stop - 1) = 0 := by omega
      rw [if_pos (by omega), if_pos hin, hnone, hzero, if_pos hboth, if_pos hin]
      rfl
    · have hnot : ¬ (t.placement = .classMember ∧ i + 1 = t.range.stop) := fun hboth => hlast hboth.2
      rw [if_neg hnot]
      by_cases hafter : t.range.stop - 1 ≤ i
      · rw [if_pos hafter, List.getElem?_eq_none (by simp; omega)]
        rfl
      · rw [if_neg hafter]
  · rw [if_neg hclass, List.mapIdx_mapIdx]
    refine congrArg Except.ok (List.mapIdx_eq_mapIdx_iff.2 fun i hi => ?_)
    simp only [Function.comp_apply, marked_eq hstart, maskedByte]
    have hnot : ¬ (t.placement = .classMember ∧ i + 1 = t.range.stop) := fun hboth => hclass hboth.1
    rw [if_neg hnot]

/-! ## Bytes of a script -/

/-- What takes the place of the byte `b` at a position of a script. -/
def maskedAt (ts : List NativeTemplate) (i : Nat) (b : UInt8) : UInt8 :=
  (ts.find? (·.range.contains i)).elim b (maskedByte · i b)

theorem maskedAt_of_outside (h : ∀ t ∈ ts, t.range.contains i = false) (b : UInt8) : maskedAt ts i b = b := by
  have hnone : ts.find? (·.range.contains i) = none := by
    rw [List.find?_eq_none]
    intro t ht
    simp [h t ht]
  rw [maskedAt, hnone]
  rfl

theorem maskedAt_cons (h : t.range.contains i = true → ∀ u ∈ ts, u.range.contains i = false) (b : UInt8) :
    maskedAt ts i (if t.range.contains i then maskedByte t i b else b) = maskedAt (t :: ts) i b := by
  by_cases hin : t.range.contains i = true
  · rw [if_pos hin, maskedAt_of_outside (h hin), maskedAt, List.find?_cons, hin]
    rfl
  · rw [if_neg hin, maskedAt, maskedAt, List.find?_cons, Bool.eq_false_of_not_eq_true hin]

/-- Masking elements one after another writes over each byte for the element around it. -/
theorem foldlM_maskElement {lo hi : Nat} (horder : InOrder lo (ts.map (·.range)) hi) (hhi : hi ≤ bs.length)
    (hlong : ∀ t ∈ ts, t.range.start + (placeholder t.placement).length < t.range.stop) :
    ts.foldlM maskElement bs = .ok (bs.mapIdx (maskedAt ts)) := by
  induction ts generalizing lo bs with
  | nil =>
    show Except.ok bs = _
    refine congrArg Except.ok (List.ext_getElem? fun i => ?_)
    rw [List.getElem?_mapIdx]
    exact Option.map_id'.symm
  | cons t ts ih =>
    have hrest : InOrder t.range.stop (ts.map NativeTemplate.range) hi := horder.2.2
    have hstop : t.range.stop ≤ bs.length := hrest.le.trans hhi
    rw [List.foldlM_cons, maskElement_eq (hlong t List.mem_cons_self) hstop]
    show ts.foldlM maskElement _ = _
    rw [ih hrest (by rw [List.length_mapIdx]; exact hhi) fun u hu => hlong u (List.mem_cons_of_mem t hu),
      List.mapIdx_mapIdx]
    -- the elements after this one start where it stops or later, so they leave its bytes alone
    refine congrArg Except.ok (List.mapIdx_eq_mapIdx_iff.2 fun i hi => ?_)
    refine maskedAt_cons (fun hin u hu => ?_) _
    have hlt := (contains_iff.1 hin).2
    have hu := (hrest.inside u.range (List.mem_map_of_mem hu)).lower
    refine Bool.eq_false_of_not_eq_true fun hcontains => ?_
    have := (contains_iff.1 hcontains).1
    omega

/-! ## Bytes and characters -/

/-- A position between characters is not inside one. -/
theorem not_inside {front back : List Char} (h : front ++ back = before ++ c :: after) :
    byteLength front ≤ byteLength before ∨ byteLength before + c.utf8Size ≤ byteLength front := by
  by_cases hle : byteLength front ≤ byteLength before
  · exact .inl hle
  · right
    obtain ⟨between, rfl, hbetween⟩ := exists_between h.symm (Nat.le_of_not_le hle)
    cases between with
    | nil => exact absurd (by rw [List.append_nil]) hle
    | cons d between =>
      cases (List.cons.inj hbetween).1
      rw [byteLength_append, byteLength_cons]
      omega

/-- An element holds all bytes of a character or none. -/
theorem contains_char (h : Stands (before ++ c :: after) t) (hi : i < c.utf8Size) :
    t.range.contains (byteLength before + i) = t.range.contains (byteLength before) := by
  obtain ⟨front, head, inside, rest, hcs, -, -, hrange⟩ := h
  have hcut : (front ++ head ++ inside ++ closeTag) ++ rest = before ++ c :: after := by
    rw [hcs]
    simp only [List.append_assoc]
  have hstart : t.range.start = byteLength front := by rw [hrange]
  have hstop : t.range.stop = byteLength (front ++ head ++ inside ++ closeTag) := by rw [hrange]
  have haround := not_inside hcs.symm
  have haround' := not_inside hcut
  rw [Bool.eq_iff_iff, contains_iff, contains_iff, hstart, hstop]
  omega

/-- The first bytes of an element are those of its opening tag. -/
theorem byteAt_tag (h : Stands cs t) {j : Nat} (hj : j < openTag.length) :
    byteAt cs (t.range.start + j) = (openTag.map byte)[j]? := by
  obtain ⟨front, head, inside, rest, rfl, ⟨more, rfl⟩, -, hrange⟩ := h
  have hbytes : bytes openTag = openTag.map byte := rfl
  have hlength : j < (openTag.map byte).length := by rw [List.length_map]; exact hj
  rw [byteAt, hrange, List.append_assoc openTag, bytes_append, List.getElem?_append_right (by simp),
    length_bytes, Nat.add_sub_cancel_left, bytes_append, hbytes, List.getElem?_append_left hlength]

/-- The last byte of an element is that of its closing tag. -/
theorem byteAt_last (h : Stands cs t) : byteAt cs (t.range.stop - 1) = some (byte '>') := by
  obtain ⟨front, head, inside, rest, rfl, -, -, hrange⟩ := h
  have hclose : closeTag = "</template".toList ++ ['>'] := by decide
  have hstop : t.range.stop - 1 = byteLength (front ++ head ++ inside ++ "</template".toList) := by
    rw [hrange, hclose, ← List.append_assoc]
    exact congrArg (· - 1) (byteLength_concat_low rfl)
  have hcs : front ++ (head ++ (inside ++ (closeTag ++ rest))) =
      (front ++ head ++ inside ++ "</template".toList) ++ '>' :: rest := by
    rw [hclose]
    simp only [List.append_assoc, List.singleton_append]
  rw [hstop, hcs, byteAt_here]
  rfl

theorem byteAt_char (before after : List Char) (hi : i < (String.utf8EncodeChar c).length) :
    byteAt (before ++ c :: after) (byteLength before + i) = some (String.utf8EncodeChar c)[i] := by
  rw [byteAt, bytes_append, List.getElem?_append_right (by simp), length_bytes, Nat.add_sub_cancel_left,
    bytes_cons, List.getElem?_append_left hi, List.getElem?_eq_getElem hi]

theorem placeholder_low (p : Placement) : ∀ d ∈ placeholder p, d.utf8Size = 1 := by
  have hall : (placeholder p).all (·.utf8Size == 1) = true := by cases p <;> decide
  simpa using hall

theorem length_placeholder_le (p : Placement) : (placeholder p).length ≤ openTag.length := by
  cases p <;> decide

theorem bytes_replicate_space (n : Nat) : bytes (List.replicate n ' ') = List.replicate n (byte ' ') := by
  induction n with
  | zero => rfl
  | succ n ih => rw [List.replicate_succ, List.replicate_succ, bytes_cons, ih]; rfl

/-- By bytes a character of an element is masked as it is by characters. -/
theorem bytes_maskedChar (h : Stands (before ++ c :: after) t) (hin : t.range.contains (byteLength before) = true) :
    bytes (maskedChar t (byteLength before) c) =
      (String.utf8EncodeChar c).mapIdx fun i b => maskedByte t (byteLength before + i) b := by
  obtain ⟨hstart, hstop⟩ := contains_iff.1 hin
  cases hmark : (placeholder t.placement)[byteLength before - t.range.start]? with
  | some d =>
    -- the placeholder stands over the name of the tag
    obtain ⟨hlt, -⟩ := List.getElem?_eq_some_iff.1 hmark
    have htag : openTag.all (·.utf8Size == 1) = true := by decide
    have hc : c.utf8Size = 1 := by
      have hmem := h.mem_openTag hstart (hlt.trans_le (length_placeholder_le _))
      simpa using List.all_eq_true.1 htag c hmem
    have hd : d.utf8Size = 1 := placeholder_low _ d (List.mem_of_getElem? hmark)
    rw [maskedChar, hmark, bytes_cons, encode_of_low hc, encode_of_low hd]
    show [byte d] = [maskedByte t (byteLength before) (byte c)]
    rw [maskedByte, hmark]
    rfl
  | none =>
    rw [maskedChar, hmark]
    show bytes (if _ then _ else _) = _
    by_cases hlast : t.placement = .classMember ∧ byteLength before + 1 = t.range.stop
    · rw [if_pos hlast, h.eq_of_last hlast.2]
      show [byte '}'] = [maskedByte t (byteLength before) (byte '>')]
      rw [maskedByte, hmark, if_pos hlast]
      rfl
    rw [if_neg hlast]
    by_cases hline : c = '\n'
    · subst hline
      show [byte '\n'] = [maskedByte t (byteLength before) (byte '\n')]
      rw [maskedByte, hmark, if_neg hlast, if_pos rfl]
      rfl
    -- as many spaces as the character has bytes; none of these is the last byte of the element or a line feed
    rw [if_neg hline, bytes_replicate_space, ← String.length_utf8EncodeChar]
    refine (List.mapIdx_eq_replicate_iff.2 fun i hi => ?_).symm
    have hmem : (String.utf8EncodeChar c)[i] ∈ String.utf8EncodeChar c := List.getElem_mem hi
    have hnone : (placeholder t.placement)[byteLength before + i - t.range.start]? = none := by
      rw [List.getElem?_eq_none_iff] at hmark ⊢
      omega
    have hnotLast : ¬ (t.placement = .classMember ∧ byteLength before + i + 1 = t.range.stop) := by
      rintro ⟨hclass, hend⟩
      have hbyte := byteAt_last h
      rw [← hend, Nat.add_sub_cancel, byteAt_char before after hi, Option.some.injEq] at hbyte
      obtain rfl := eq_of_byte_mem (d := '>') rfl (hbyte ▸ hmem)
      obtain rfl : i = 0 := Nat.lt_one_iff.1 hi
      exact hlast ⟨hclass, hend⟩
    have hnotLine : (String.utf8EncodeChar c)[i] ≠ byte '\n' := fun hbyte =>
      hline (eq_of_byte_mem rfl (hbyte ▸ hmem))
    rw [maskedByte, hnone, if_neg hnotLast, if_neg hnotLine]
    rfl

theorem bytes_maskFrom (cs done : List Char) (h : ∀ t ∈ ts, Stands (done ++ cs) t) :
    bytes (maskFrom ts (byteLength done) cs) =
      (bytes cs).mapIdx fun i => maskedAt ts (byteLength done + i) := by
  induction cs generalizing done with
  | nil => rfl
  | cons c cs ih =>
    have hrest := ih (done ++ [c]) (stands_after h)
    rw [maskFrom, bytes_append, ← byteLength_concat, hrest, bytes_cons, List.mapIdx_append,
      String.length_utf8EncodeChar]
    refine congrArg₂ (· ++ ·) ?_ ?_
    · -- all bytes of the character are in the same element
      have hfind : ∀ i < (String.utf8EncodeChar c).length,
          ts.find? (·.range.contains (byteLength done + i)) =
            ts.find? (·.range.contains (byteLength done)) := by
        intro i hi
        rw [String.length_utf8EncodeChar] at hi
        exact List.find?_congr fun t ht => contains_char (h t ht) hi
      cases hfound : ts.find? (·.range.contains (byteLength done)) with
      | none =>
        show String.utf8EncodeChar c ++ [] = _
        rw [List.append_nil]
        refine List.ext_getElem (by simp) fun i hi _ => ?_
        rw [List.getElem_mapIdx, maskedAt, hfind i hi, hfound]
        rfl
      | some t =>
        have hin : t.range.contains (byteLength done) = true := by simpa using List.find?_some hfound
        show bytes (maskedChar t (byteLength done) c) = _
        rw [bytes_maskedChar (h t (List.mem_of_find?_eq_some hfound)) hin]
        refine List.mapIdx_eq_mapIdx_iff.2 fun i hi => ?_
        rw [maskedAt, hfind i hi, hfound]
        rfl
    · refine List.mapIdx_eq_mapIdx_iff.2 fun i hi => ?_
      rw [byteLength_concat, Nat.add_assoc, Nat.add_comm c.utf8Size]

/-! ## The masked script -/

theorem bytes_mask {source : String} (h : ∀ t ∈ ts, Stands source.toList t) :
    bytes (mask ts source).toList = (bytes source.toList).mapIdx (maskedAt ts) := by
  rw [mask, String.toList_ofList]
  have hbytes := bytes_maskFrom source.toList [] h
  simpa using hbytes

theorem placeholder_fits (h : Stands cs t) : t.range.start + (placeholder t.placement).length < t.range.stop := by
  obtain ⟨before, head, inside, after, -, hhead, -, hrange⟩ := h
  have hname := hhead.length_le
  have hbytes := length_le_byteLength head
  have hshort := length_placeholder_le t.placement
  have hclose : 0 < byteLength closeTag := by decide
  have hstart : t.range.start = byteLength before := by rw [hrange]
  have hstop : t.range.stop = byteLength (before ++ head ++ inside ++ closeTag) := by rw [hrange]
  simp only [byteLength_append] at hstop
  omega

/-- Masking what a scan found writes into the text only, and gives the bytes of the masked text. -/
theorem maskBytes_eq {source : String} (h : Native.scan source = .ok ts) :
    maskBytes ts source = .ok (bytes (mask ts source).toList) := by
  obtain ⟨hstands, horder⟩ := scan_stands h
  have hsize : size source ≤ (bytes source.toList).length := by rw [length_bytes, size_eq_byteLength]
  rw [bytes_mask hstands, maskBytes]
  exact foldlM_maskElement horder hsize fun t ht => placeholder_fits (hstands t ht)

/-- A byte of a masked script is a line feed exactly if it was. -/
theorem maskedByte_eq_line (h : Stands cs t) {b : UInt8} (hin : t.range.contains i = true) (hb : byteAt cs i = some b) :
    maskedByte t i b = byte '\n' ↔ b = byte '\n' := by
  obtain ⟨hstart, -⟩ := contains_iff.1 hin
  rw [maskedByte]
  cases hmark : (placeholder t.placement)[i - t.range.start]? with
  | some d =>
    obtain ⟨hlt, -⟩ := List.getElem?_eq_some_iff.1 hmark
    have hplaceholder : (placeholder t.placement).all (fun d => byte d != byte '\n') = true := by
      cases t.placement <;> decide
    have htag : (openTag.map byte).all (fun b => b != byte '\n') = true := by decide
    refine iff_of_false ?_ ?_
    · simpa using List.all_eq_true.1 hplaceholder d (List.mem_of_getElem? hmark)
    · have hbyte := byteAt_tag h (hlt.trans_le (length_placeholder_le _))
      rw [Nat.add_sub_cancel' hstart, hb] at hbyte
      simpa using List.all_eq_true.1 htag b (List.mem_of_getElem? hbyte.symm)
  | none =>
    show (if _ then _ else _) = byte '\n' ↔ _
    by_cases hlast : t.placement = .classMember ∧ i + 1 = t.range.stop
    · have hbyte := byteAt_last h
      rw [← hlast.2, Nat.add_sub_cancel, hb, Option.some.injEq] at hbyte
      rw [if_pos hlast, hbyte]
      decide
    · rw [if_neg hlast]
      by_cases hline : b = byte '\n'
      · rw [if_pos hline]
      · rw [if_neg hline]
        exact iff_of_false (by decide) hline

end Walk

/-! ## Scripts as they are scanned and masked -/

/-- An element in a script: it begins with an opening tag and ends with a closing tag, between characters, and
its content lies in it. -/
structure Encloses (source : String) (t : NativeTemplate) : Prop where
  element : ∃ text, slice source t.range.start t.range.stop = some text ∧
    openTag <+: text.toList ∧ closeTag <:+ text.toList
  content : ∃ text, slice source t.content.start t.content.stop = some text
  inside : t.content.In t.range.start t.range.stop

theorem Stands.encloses {source : String} {t : NativeTemplate} (h : Stands source.toList t) :
    Encloses source t where
  element := by
    obtain ⟨before, head, inside, after, hsource, hhead, -, hrange⟩ := h
    refine ⟨String.ofList (head ++ inside ++ closeTag), ?_, ?_, ?_⟩
    · rw [hrange]
      refine slice_eq_some_iff.2 ⟨before, after, ?_, rfl, ?_⟩
      · rw [hsource, String.toList_ofList, List.append_assoc, List.append_assoc]
      · simp only [size_eq_byteLength, String.toList_ofList, byteLength_append, Nat.add_assoc]
    · rw [String.toList_ofList, List.append_assoc]
      exact hhead.trans (List.prefix_append _ _)
    · rw [String.toList_ofList]
      exact List.suffix_append _ _
  content := h.cuts.2
  inside := h.inside.2

/-- A text in which elements of another are masked: it is as long, its lines break at the same bytes, and
outside the elements it has the same bytes. -/
structure Masks (source masked : String) (ts : List NativeTemplate) : Prop where
  size : size masked = size source
  lines : ∀ i, Walk.byteAt masked.toList i = some (byte '\n') ↔ Walk.byteAt source.toList i = some (byte '\n')
  outside : ∀ i, (∀ t ∈ ts, t.range.contains i = false) →
    Walk.byteAt masked.toList i = Walk.byteAt source.toList i

theorem mask_masks {source : String} {ts : List NativeTemplate} (h : ∀ t ∈ ts, Stands source.toList t) :
    Masks source (mask ts source) ts where
  size := size_mask h
  lines := by
    intro i
    rw [Walk.byteAt, Walk.bytes_mask h, List.getElem?_mapIdx, ← Walk.byteAt]
    cases hb : Walk.byteAt source.toList i with
    | none => rfl
    | some b =>
      rw [Option.map_some, Option.some.injEq, Option.some.injEq, Walk.maskedAt]
      cases hfound : ts.find? (·.range.contains i) with
      | none => rfl
      | some t =>
        have hin : t.range.contains i = true := by simpa using List.find?_some hfound
        exact Walk.maskedByte_eq_line (h t (List.mem_of_find?_eq_some hfound)) hin hb
  outside := by
    intro i hout
    rw [Walk.byteAt, Walk.bytes_mask h, List.getElem?_mapIdx, ← Walk.byteAt]
    cases Walk.byteAt source.toList i with
    | none => rfl
    | some b => rw [Option.map_some, Walk.maskedAt_of_outside hout]

/-- Walking over the bytes of any script ends, with the elements or with one that is not closed: it never
takes a slice that leaves the text or cuts a character, asks for a byte past the end, or stops moving. The
elements come one after another, each from an opening to a closing tag around its content. Masking them
writes only into the text and gives bytes that are a text again, of the same length, with the same lines,
and changed in the elements alone. -/
theorem scan_and_mask_keep_to_characters (source : String) :
    Walk.scan source = (scan source).mapError Walk.Fault.unclosed ∧
      ∀ ts, scan source = .ok ts →
        (ts.Pairwise fun t u => t.range.stop ≤ u.range.start) ∧
        (∀ t ∈ ts, Encloses source t) ∧
        (∃ bs, Walk.maskBytes ts source = .ok bs ∧ String.fromUTF8? bs.toByteArray = some (mask ts source)) ∧
        Masks source (mask ts source) ts := by
  refine ⟨Walk.scan_eq source, fun ts h => ?_⟩
  obtain ⟨hstands, horder⟩ := scan_stands h
  refine ⟨List.pairwise_map.1 horder.pairwise, fun t ht => (hstands t ht).encloses, ?_, mask_masks hstands⟩
  exact ⟨_, Walk.maskBytes_eq h, fromUTF8?_bytes _⟩

theorem scanFrom_of_step {p : Progress} {c : Char} {cs : List Char} {s : Step} {ts : List NativeTemplate}
    (hstep : step p c cs = .ok s) (hrest : scanFrom s.progress (cs.drop s.taken) = .ok ts) :
    scanFrom p (c :: cs) = .ok (s.found.toList ++ ts) := by
  rw [scanFrom, hstep]
  show (scanFrom _ _ >>= _) = _
  rw [hrest]
  rfl

theorem scan_and_mask_keep_to_characters_escaped :
    Walk.scan "'\\é'=<template>é\n</template>" = .ok [⟨⟨6, 30⟩, ⟨16, 19⟩, .expression⟩] ∧
      ∃ bs, Walk.maskBytes [⟨⟨6, 30⟩, ⟨16, 19⟩, .expression⟩] "'\\é'=<template>é\n</template>" = .ok bs ∧
        String.fromUTF8? bs.toByteArray = some "'\\é'=null        \n           " := by
  obtain ⟨hwalk, hmask⟩ := scan_and_mask_keep_to_characters "'\\é'=<template>é\n</template>"
  have hsource : "'\\é'=<template>é\n</template>".toList =
      '\'' :: '\\' :: 'é' :: '\'' :: '=' :: '<' :: "template>é\n</template>".toList := by decide
  have hopen : atOpenTag ('<' :: "template>é\n</template>".toList) = true := by decide
  have hextent : extent? ('<' :: "template>é\n</template>".toList) = some (10, 2) :=
    extent_eq_some_iff.2 ⟨"<template".toList, "é\n</template>".toList, by decide, by decide, rfl,
      ⟨by decide, by decide, by decide⟩⟩
  have hend : "template>é\n</template>".toList.drop 22 = [] := by decide
  have htemplate : ∀ p : Progress, p.template ('<' :: "template>é\n</template>".toList) 10 2 =
      ⟨⟨p.pos, p.pos + 24⟩, ⟨p.pos + 10, p.pos + 13⟩, p.placement⟩ :=
    fun p => p.template_eq (show _ = "<template".toList ++ '>' :: ("é\n".toList ++ (closeTag ++ [])) by decide)
  have hscan : scan "'\\é'=<template>é\n</template>" = .ok [⟨⟨6, 30⟩, ⟨16, 19⟩, .expression⟩] := by
    rw [scan, hsource]
    generalize "template>é\n</template>".toList = tail at hopen hextent hend htemplate
    have hlast : ∀ p : Progress, p.frames = [] → scanFrom p ('<' :: tail) =
        .ok [⟨⟨p.pos, p.pos + 24⟩, ⟨p.pos + 10, p.pos + 13⟩, p.placement⟩] := by
      intro p hframes
      have hstep := (codeStep_of_atOpenTag (p := p) hopen).2 10 2 hextent
      rw [scanFrom, step, hframes, if_neg (by decide), hstep]
      show (scanFrom _ (tail.drop 22) >>= _) = _
      rw [hend, scanFrom, ← htemplate]
      rfl
    refine scanFrom_of_step (s := .take {} '\'' ('\\' :: 'é' :: '\'' :: '=' :: '<' :: tail) 3 true) rfl ?_
    exact scanFrom_of_step (s := .take _ '=' ('<' :: tail) 0 true) rfl (hlast _ rfl)
  rw [hscan] at hwalk
  refine ⟨hwalk, ?_⟩
  obtain ⟨bs, hbs, htext⟩ := (hmask _ hscan).2.2.1
  exact ⟨bs, hbs, htext.trans (congrArg some (by decide))⟩

end TypedTemplate.Script.Native
