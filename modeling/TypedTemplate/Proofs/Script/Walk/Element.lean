/-
Elements by bytes and by characters. Tags are ASCII, so every position at which the search for the end of an
element starts again lies between characters. Opening tags are looked for among the occurrences of their name,
which do not overlap; nothing is missed, since the name has no second `<`.
-/
import TypedTemplate.Proofs.Script.Element
import TypedTemplate.Proofs.Script.Walk.Look

namespace TypedTemplate.Script.Native.Walk

open Text

variable {done rest : List Char} {unclosed : Fault} {depth : Nat} {q : Place}

theorem openAt_eq (done rest : List Char) : openAt (done ++ rest) (byteLength done) = .ok (atOpenTag rest) := by
  rw [openAt, sliceFrom_here]
  show Except.ok (_ && _) = _
  rw [atOpenTag, stripStart?]
  by_cases hname : openTag.isPrefixOf rest = true
  · obtain ⟨more, rfl⟩ := List.isPrefixOf_iff_prefix.1 hname
    have hbyte : byteAt (done ++ (openTag ++ more)) (byteLength done + openTag.length) =
        more.head?.map firstByte := by
      rw [← List.append_assoc, ← byteAt_append, byteLength_append]
      rfl
    rw [hname, if_pos rfl, Bool.true_and, hbyte, List.drop_left]
    cases more with
    | nil => rfl
    | cons c more =>
      rw [List.head?_cons, Option.map_some, Option.any_some, ascii_firstByte]
      intro c hc
      simp only [Bool.or_eq_true, beq_iff_eq] at hc
      rcases hc with (((rfl | rfl) | rfl) | rfl) | rfl <;> rfl
  · rw [if_neg hname, Bool.eq_false_of_not_eq_true hname, Bool.false_and]

/-! ## The first opening tag -/

theorem firstOpen_cons (done rest : List Char) (ns : List Nat) :
    firstOpen (done ++ rest) (byteLength done :: ns) =
      if atOpenTag rest then .ok (some (byteLength done)) else firstOpen (done ++ rest) ns := by
  rw [firstOpen, openAt_eq]
  rfl

theorem openTagWithin_cons_of_not {limit : Nat} {c : Char} {cs : List Char}
    (h : openTag.length ≤ limit + 1 → atOpenTag (c :: cs) = false) :
    openTagWithin (limit + 1) (c :: cs) = (openTagWithin limit cs).map (· + 1) := by
  rw [openTagWithin]
  by_cases hlimit : limit + 1 < openTag.length
  · have hnone : openTagWithin limit cs = none := by
      cases cs with
      | nil => rfl
      | cons d cs => rw [openTagWithin, if_pos (Nat.lt_of_succ_lt hlimit)]
    rw [if_pos hlimit, hnone]
    rfl
  · rw [if_neg hlimit, h (Nat.not_lt.1 hlimit)]
    rfl

/-- The first opening tag in a window, among the occurrences of its name. -/
theorem firstOpen_occurrences (tail window done : List Char) (skip : Nat) (hskip : '<' ∉ window.take skip) :
    firstOpen (done ++ (window ++ tail)) (occurrences openTag skip (byteLength done) window) =
      .ok ((openTagWithin window.length (window ++ tail)).map fun n =>
        byteLength (done ++ (window ++ tail).take n)) := by
  induction window generalizing done skip with
  | nil =>
    cases tail with
    | nil => rfl
    | cons c tail => rfl
  | cons c window ih =>
    -- What follows is looked through from the next character on, with the same text.
    have hnext : ∀ skip, '<' ∉ window.take skip →
        (openTag.length ≤ window.length + 1 → atOpenTag (c :: (window ++ tail)) = false) →
        firstOpen (done ++ (c :: window ++ tail))
            (occurrences openTag skip (byteLength done + c.utf8Size) window) =
          .ok ((openTagWithin (c :: window).length (c :: window ++ tail)).map fun n =>
            byteLength (done ++ (c :: window ++ tail).take n)) := by
      intro skip hskip hnot
      have hrest := ih (done ++ [c]) skip hskip
      rw [byteLength_concat, ← List.append_cons] at hrest
      rw [List.cons_append, hrest, List.length_cons, openTagWithin_cons_of_not hnot, Option.map_map]
      refine congrArg (fun f => Except.ok (Option.map f _)) (funext fun n => ?_)
      simp
    cases skip with
    | succ skip =>
      rw [List.take_succ_cons, List.mem_cons, not_or] at hskip
      exact hnext skip hskip.2 fun _ => Bool.eq_false_of_not_eq_true fun hopen =>
        hskip.1 (eq_of_atOpenTag hopen).symm
    | zero =>
      rw [occurrences]
      by_cases hname : openTag.isPrefixOf (c :: window) = true
      · rw [if_pos hname, firstOpen_cons]
        obtain ⟨more, hmore⟩ := List.isPrefixOf_iff_prefix.1 hname
        by_cases hopen : atOpenTag (c :: window ++ tail) = true
        · have hlong : ¬ (c :: window).length < openTag.length := by
            rw [← hmore, List.length_append]
            omega
          rw [if_pos hopen]
          rw [List.cons_append] at hopen ⊢
          rw [openTagWithin, if_neg hlong, if_pos hopen]
          simp
        · rw [if_neg hopen]
          have hwindow : window.take (openTag.length - 1) = openTag.tail := by
            rw [← (List.cons.inj hmore).2]
            exact List.take_left' rfl
          refine hnext _ ?_ fun _ => Bool.eq_false_of_not_eq_true hopen
          rw [hwindow]
          decide
      · rw [if_neg hname]
        refine hnext 0 (by simp) fun hlong => Bool.eq_false_of_not_eq_true fun hopen => hname ?_
        exact List.isPrefixOf_iff_prefix.2 (List.prefix_of_prefix_length_le (openTag_of_atOpenTag hopen)
          (List.prefix_append (c :: window) tail) hlong)

/-! ## The closing tag -/

theorem closeStart_of_none (h : splitAtFirst closeTag rest = none) :
    closeStart (done ++ rest) unclosed depth (byteLength done) = .error unclosed := by
  rw [closeStart]
  split
  · rename_i hslice
    rw [sliceFrom_here] at hslice
    cases hslice
  · rename_i hslice
    cases (sliceFrom_here done rest).symm.trans hslice
    split
    · rfl
    · rename_i hsplit
      rw [h] at hsplit
      cases hsplit

/-- One turn of the search: into the next opening tag, or past the closing tag. -/
theorem closeStart_of_some {inside after : List Char} (h : splitAtFirst closeTag rest = some (inside, after)) :
    closeStart (done ++ rest) unclosed depth (byteLength done) =
      (openTagWithin inside.length rest).elim
        (if depth = 0 then .ok (byteLength (done ++ inside))
          else closeStart (done ++ rest) unclosed (depth - 1) (byteLength (done ++ inside) + closeTag.length))
        fun n =>
          closeStart (done ++ rest) unclosed (depth + 1) (byteLength (done ++ rest.take n) + openTag.length) := by
  have hrest := splitAtFirst_eq_some h
  have hwindow : sliceBetween (done ++ rest) (byteLength done) (byteLength done + byteLength inside) =
      .ok inside := by
    rw [← byteLength_append, hrest, ← List.append_assoc]
    exact sliceBetween_here done inside _
  have hfirst : firstOpen (done ++ rest) (occurrences openTag 0 (byteLength done) inside) =
      .ok ((openTagWithin inside.length rest).map fun n => byteLength (done ++ rest.take n)) := by
    rw [hrest]
    exact firstOpen_occurrences _ inside done 0 (by simp)
  -- every slice is there, so one branch of each match is left up to the opening tag
  rw [closeStart.eq_def]
  split
  · rename_i hslice
    rw [sliceFrom_here] at hslice
    cases hslice
  rename_i hslice
  cases (sliceFrom_here done rest).symm.trans hslice
  split
  · rename_i hsplit
    rw [h] at hsplit
    cases hsplit
  rename_i hsplit
  cases h.symm.trans hsplit
  split
  · rename_i hbetween
    rw [hwindow] at hbetween
    cases hbetween
  rename_i hbetween
  cases hwindow.symm.trans hbetween
  split
  · rename_i hopen
    rw [hfirst] at hopen
    cases hopen
  · rename_i next hopen
    rw [hfirst, Except.ok.injEq] at hopen
    obtain ⟨n, hn, rfl⟩ := Option.map_eq_some_iff.1 hopen
    rw [hn]
    rfl
  · rename_i hopen
    rw [hfirst, Except.ok.injEq, Option.map_eq_none_iff] at hopen
    rw [hopen, byteLength_append]
    rfl
  · rename_i depth hopen
    rw [hfirst, Except.ok.injEq, Option.map_eq_none_iff] at hopen
    rw [hopen, byteLength_append]
    rfl

theorem byteLength_take_tag {word : List Char} {n : Nat} (h : word <+: rest.drop n) (done : List Char) :
    byteLength (done ++ rest.take n) + byteLength word = byteLength (done ++ rest.take (n + word.length)) := by
  rw [List.take_add, ← List.prefix_iff_eq_take.1 h, ← List.append_assoc,
    byteLength_append (done ++ rest.take n)]

/-- A search that starts again after `k` characters. -/
theorem closeStart_resume {k : Nat}
    (ih : ∀ done, closeStart (done ++ rest.drop k) unclosed depth (byteLength done) =
      (contentLength depth (rest.drop k)).elim (.error unclosed) fun n =>
        .ok (byteLength (done ++ (rest.drop k).take n))) :
    closeStart (done ++ rest) unclosed depth (byteLength (done ++ rest.take k)) =
      ((contentLength depth (rest.drop k)).map (· + k)).elim (.error unclosed) fun n =>
        .ok (byteLength (done ++ rest.take n)) := by
  have hrest := ih (done ++ rest.take k)
  rw [List.append_assoc, List.take_append_drop] at hrest
  rw [hrest]
  cases contentLength depth (rest.drop k) with
  | none => rfl
  | some n =>
    show Except.ok _ = Except.ok (byteLength (done ++ rest.take (n + k)))
    rw [Nat.add_comm n k, List.take_add, List.append_assoc]

/-- By bytes the search for the closing tag of an element ends where it ends by characters. -/
theorem closeStart_eq (unclosed : Fault) (depth : Nat) (rest done : List Char) :
    closeStart (done ++ rest) unclosed depth (byteLength done) =
      (contentLength depth rest).elim (.error unclosed) fun n => .ok (byteLength (done ++ rest.take n)) := by
  fun_induction contentLength depth rest generalizing done with
  | case1 depth => exact closeStart_of_none rfl
  | case2 depth c cs hsplit => exact closeStart_of_none hsplit
  | case3 c cs inside after hsplit n depth hopen ih =>
    have htag := byteLength_take_tag (openTag_of_opensAt (openTagWithin_eq_some hopen).1) done
    rw [closeStart_of_some hsplit, hopen]
    show closeStart _ _ _ (_ + byteLength openTag) = _
    rw [htag]
    exact closeStart_resume ih
  | case4 c cs inside after hsplit hopen =>
    rw [closeStart_of_some hsplit, hopen, splitAtFirst_eq_some hsplit]
    show Except.ok _ = Except.ok _
    rw [List.take_left]
  | case5 c cs inside after hsplit depth hopen ih =>
    have htag := byteLength_take_tag (closeTag_of_closesAt (closesAt_of_splitAtFirst hsplit).1) done
    rw [splitAtFirst_eq_some hsplit, List.take_left, ← splitAtFirst_eq_some hsplit] at htag
    rw [closeStart_of_some hsplit, hopen]
    show closeStart _ _ _ (_ + byteLength closeTag) = _
    rw [htag]
    exact closeStart_resume ih

/-! ## The element -/

/-- The opening tag of an element is passed, and its closing tag looked for. -/
theorem element_of_tag {tag more : List Char} (hpos : q.pos = byteLength done)
    (h : splitAtFirst ['>'] rest = some (tag, more)) :
    element (done ++ rest) q =
      (contentLength 0 more).elim
        (.error (.unclosed ⟨⟨byteLength done, byteLength done + openTag.length⟩⟩))
        fun n => (placement (done ++ rest) q).map
          (q.past (byteLength (done ++ (tag ++ ['>']))) (byteLength (done ++ (tag ++ ['>']) ++ more.take n))) := by
  have hcs : done ++ rest = done ++ (tag ++ ['>']) ++ more := by
    rw [splitAtFirst_eq_some h, List.append_assoc, List.append_assoc]
  have hopenEnd : byteLength tag + byteLength done + 1 = byteLength (done ++ (tag ++ ['>'])) := by
    rw [byteLength_append, byteLength_append]
    show _ = _ + (_ + 1)
    omega
  have hclose := closeStart_eq (.unclosed ⟨⟨byteLength done, byteLength done + openTag.length⟩⟩) 0 more
    (done ++ (tag ++ ['>']))
  rw [← hcs] at hclose
  rw [element, hpos, sliceFrom_here]
  simp only [bind, Except.bind, h, hopenEnd, hclose]
  cases contentLength 0 more with
  | none => rfl
  | some n => cases placement (done ++ rest) q <;> rfl

theorem element_of_none (hpos : q.pos = byteLength done) (h : extent? rest = none) :
    element (done ++ rest) q = .error (.unclosed ⟨⟨byteLength done, byteLength done + openTag.length⟩⟩) := by
  cases hsplit : splitAtFirst ['>'] rest with
  | none =>
    rw [element, hpos, sliceFrom_here]
    simp only [bind, Except.bind, hsplit]
    rfl
  | some parts =>
    obtain ⟨tag, more⟩ := parts
    rw [extent?, hsplit] at h
    cases hcontent : contentLength 0 more with
    | none => rw [element_of_tag hpos hsplit, hcontent]; rfl
    | some n =>
      simp only [Option.bind_eq_bind, Option.bind_some, hcontent, reduceCtorEq] at h

theorem element_of_some {p : Progress} {tag content : Nat} (hpos : q.pos = byteLength done)
    (hp : p.pos = byteLength done) (hlast : Recalls (done ++ rest) p.last q.last) (hframes : q.frames = p.frames)
    (h : extent? rest = some (tag, content)) :
    element (done ++ rest) q = .ok { q with
      pos := byteLength (done ++ rest.take (tag + content + closeTag.length))
      last := some (byteLength (done ++ rest.take (tag + content + closeTag.length)) - 1)
      found := q.found ++ [p.template rest tag content] } := by
  obtain ⟨⟨front, more⟩, hsplit, h⟩ := Option.bind_eq_some_iff.1 h
  obtain ⟨n, hcontent, h⟩ := Option.bind_eq_some_iff.1 h
  cases h
  obtain ⟨inside, after, rfl, rfl⟩ := (contentLength_eq_some_iff.1 hcontent).split
  have hrest : rest = front ++ '>' :: (inside ++ (closeTag ++ after)) := splitAtFirst_eq_some hsplit
  have hall : rest = front ++ '>' :: (inside ++ closeTag) ++ after := by
    rw [hrest]
    simp
  have htake : rest.take (front.length + 1 + inside.length + closeTag.length) =
      front ++ '>' :: (inside ++ closeTag) := by
    rw [hall]
    exact List.take_left' (by simp only [List.length_append, List.length_cons]; omega)
  have hclose : byteLength (done ++ (front ++ ['>']) ++ inside) =
      byteLength done + byteLength (front ++ '>' :: inside) := by
    rw [← byteLength_append]
    simp
  have hstop : byteLength done + byteLength (front ++ '>' :: inside) + closeTag.length =
      byteLength (done ++ (front ++ '>' :: (inside ++ closeTag))) := by
    rw [show closeTag.length = byteLength closeTag by decide, ← byteLength_append, ← byteLength_append]
    simp
  rw [element_of_tag hpos hsplit, hcontent, placement_eq hlast hframes, p.template_eq hrest, htake, hp]
  show Except.ok _ = Except.ok _
  rw [Place.past, hpos, List.take_left, hclose, hstop]
  simp only [byteLength_append done]

end TypedTemplate.Script.Native.Walk
