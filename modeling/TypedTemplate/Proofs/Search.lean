/-
Searching by halving finds the cut: in a list of elements that satisfy a condition followed by elements
that do not, it answers how many the former are. Among things that lie in order, cutting off those that
stop before a position leads to the first one that reaches it.
-/
import TypedTemplate.Proofs.Span
import TypedTemplate.Search

namespace TypedTemplate

/-- The invariant of halving: the cut `n` lies within the `size` elements from `base`. -/
theorem partitionFrom_eq {α : Type} {p : α → Bool} {xs : Array α} {n base size : Nat}
    (hp : ∀ i x, xs[i]? = some x → (p x = true ↔ i < n)) (hn : n ≤ xs.size)
    (hlo : base ≤ n) (hhi : n ≤ base + size) : partitionFrom p xs base size = n := by
  fun_induction partitionFrom p xs base size with
  | case1 base size hsize x hx hpx =>
    have := (hp base x hx).1 hpx
    omega
  | case2 base size hsize x hx hpx =>
    have := mt (hp base x hx).2 hpx
    omega
  | case3 base size hsize hx =>
    have := Array.getElem?_eq_none_iff.1 hx
    omega
  | case4 base size hsize half base' ih =>
    -- the element in the middle tells on which side of it the cut lies
    have hside : base' ≤ n ∧ n ≤ base' + (size - half) := by
      cases hx : xs[base + half]? with
      | none =>
        have hsmall := Array.getElem?_eq_none_iff.1 hx
        have hbase : base' = base := by simp only [base', hx]
        omega
      | some x =>
        by_cases hpx : p x = true
        · have hlt := (hp _ x hx).1 hpx
          have hbase : base' = base + half := by simp only [base', hx, hpx]; rfl
          omega
        · have hge := mt (hp _ x hx).2 hpx
          have hbase : base' = base := by simp only [base', hx, hpx]; rfl
          omega
    exact ih hside.1 hside.2

theorem partitionPoint_append {α : Type} {p : α → Bool} {before after : List α}
    (hbefore : ∀ x ∈ before, p x = true) (hafter : ∀ x ∈ after, p x = false) :
    partitionPoint p (before ++ after) = before.length := by
  refine partitionFrom_eq (fun i x hx => ?_) (by simp) (Nat.zero_le _) (by simp)
  rw [List.getElem?_toArray] at hx
  by_cases hi : i < before.length
  · rw [List.getElem?_append_left hi] at hx
    exact iff_of_true (hbefore x (List.mem_of_getElem? hx)) hi
  · rw [List.getElem?_append_right (Nat.le_of_not_lt hi)] at hx
    have hfalse := hafter x (List.mem_of_getElem? hx)
    exact iff_of_false (by rw [hfalse]; exact Bool.false_ne_true) hi

/-- The invariant of the search for a number: the numbers up to it are the first `n`, and the last of these is among
the `size` elements from `base`, where the search has got to none that is larger. So the number is found as the last of
them, or has to be put after them. -/
theorem searchFrom_eq {key : Nat} {xs : Array Nat} {n base size : Nat}
    (hle : ∀ i x, xs[i]? = some x → (x ≤ key ↔ i < n)) (hkey : ∀ i, xs[i]? = some key → i + 1 = n)
    (hn : n ≤ xs.size) (hlo : base = 0 ∨ base < n) (hhi : n ≤ base + size) :
    searchFrom key xs base size = if 0 < n ∧ xs[n - 1]? = some key then .ok (n - 1) else .error n := by
  fun_induction searchFrom key xs base size with
  | case1 base size hsize hx =>
    obtain rfl := hkey base hx
    rw [Nat.add_sub_cancel, if_pos ⟨Nat.succ_pos _, hx⟩]
  | case2 base size hsize x hx hne hlt =>
    have hbase := (hle base x hx).1 (Nat.le_of_lt hlt)
    obtain rfl : n = base + 1 := by omega
    rw [Nat.add_sub_cancel, hx, if_neg (by simpa using fun h => hne h)]
  | case3 base size hsize x hx hne hlt =>
    have hbase := mt (hle base x hx).2 (by omega)
    obtain rfl : n = base := by omega
    obtain rfl : n = 0 := by omega
    rw [if_neg (by simp)]
  | case4 base size hsize hx =>
    have hend := Array.getElem?_eq_none_iff.1 hx
    obtain rfl : n = base := by omega
    obtain rfl : n = 0 := by omega
    rw [if_neg (by simp)]
  | case5 base size hsize half base' ih =>
    -- the element in the middle tells on which side of it the last of them lies
    have hside : (base' = 0 ∨ base' < n) ∧ n ≤ base' + (size - half) := by
      cases hx : xs[base + half]? with
      | none =>
        have hsmall := Array.getElem?_eq_none_iff.1 hx
        have hbase : base' = base := by simp only [base', hx]
        omega
      | some x =>
        by_cases hlt : key < x
        · have hge := mt (hle _ x hx).2 (by omega)
          have hbase : base' = base := by simp only [base', hx, hlt]; rfl
          omega
        · have hin := (hle _ x hx).1 (by omega)
          have hbase : base' = base + half := by simp only [base', hx, hlt]; rfl
          omega
    exact ih hside.1 hside.2

/-- Looking up the cut gives the first element that does not satisfy the condition. -/
theorem getElem?_partitionPoint {α : Type} {p : α → Bool} {before after : List α}
    (hbefore : ∀ x ∈ before, p x = true) (hafter : ∀ x ∈ after, p x = false) :
    (before ++ after)[partitionPoint p (before ++ after)]? = after.head? := by
  rw [partitionPoint_append hbefore hafter, List.getElem?_append_right le_rfl, Nat.sub_self,
    List.head?_eq_getElem?]

/-- The invariant of halving in whatever list: the condition fails at the end of the `size` elements
from `base`, or just before it. -/
theorem partitionFrom_not {α : Type} (p : α → Bool) (xs : Array α) (base size : Nat) :
    ∀ j, (∀ x, xs[j]? = some x → p x = false) → base ≤ j → base + size ≤ j + 1 → j ≤ base + size →
      ∀ x, xs[partitionFrom p xs base size]? = some x → p x = false := by
  fun_induction partitionFrom p xs base size with
  | case1 base size hsize x hx hpx =>
    intro j hj hbase hlo hhi
    have hne : j ≠ base := by
      rintro rfl
      rw [hj x hx] at hpx
      cases hpx
    obtain rfl : j = base + 1 := by omega
    exact hj
  | case2 base size hsize x hx hpx =>
    intro j hj hbase hlo hhi y hy
    obtain rfl : x = y := Option.some.inj (hx.symm.trans hy)
    exact Bool.eq_false_of_not_eq_true hpx
  | case3 base size hsize hx =>
    intro j hj hbase hlo hhi y hy
    rw [hx] at hy
    cases hy
  | case4 base size hsize half base' ih =>
    intro j hj hbase hlo hhi
    -- if the condition fails in the middle, that is where it fails from now on
    cases hx : xs[base + half]? with
    | none =>
      have hbase' : base' = base := by simp only [base', hx]
      refine ih (base + half) (fun x h => ?_) (by omega) (by omega) (by omega)
      rw [hx] at h
      cases h
    | some x =>
      by_cases hpx : p x = true
      · have hbase' : base' = base + half := by simp only [base', hx, hpx]; rfl
        exact ih j hj (by omega) (by omega) (by omega)
      · have hbase' : base' = base := by simp only [base', hx, hpx]; rfl
        refine ih (base + half) (fun y h => ?_) (by omega) (by omega) (by omega)
        obtain rfl : x = y := Option.some.inj (hx.symm.trans h)
        exact Bool.eq_false_of_not_eq_true hpx

/-- Whatever the list, the element that halving ends at does not satisfy the condition. -/
theorem not_of_getElem?_partitionPoint {α : Type} {p : α → Bool} {xs : List α} {x : α}
    (h : xs[partitionPoint p xs]? = some x) : p x = false := by
  rw [← List.getElem?_toArray] at h
  have hend : ∀ y, xs.toArray[xs.length]? = some y → p y = false := by
    intro y hy
    rw [List.getElem?_toArray, List.getElem?_eq_none le_rfl] at hy
    cases hy
  exact partitionFrom_not p xs.toArray 0 xs.length xs.length hend (Nat.zero_le _) (by omega) (by omega)
    x h

/-! ## Things in order -/

namespace Span

variable {α : Type} {f : α → Span} {lo hi : Nat} {xs : List α}

/-- Things in order are cut by a position: some stop before it, and all the others reach it. -/
theorem InOrder.exists_cut (offset : Nat) :
    ∀ {xs : List α} {lo : Nat}, InOrder lo (xs.map f) hi →
      ∃ before after, xs = before ++ after ∧ (∀ b ∈ before, (f b).stop < offset) ∧
        ∀ a ∈ after, offset ≤ (f a).stop
  | [], _, _ => ⟨[], [], rfl, by simp, by simp⟩
  | x :: xs, lo, h => by
    by_cases hx : (f x).stop < offset
    · obtain ⟨before, after, rfl, hbefore, hafter⟩ := InOrder.exists_cut offset h.2.2
      refine ⟨x :: before, after, rfl, fun b hb => ?_, hafter⟩
      rcases List.mem_cons.1 hb with rfl | hb
      · exact hx
      · exact hbefore b hb
    · refine ⟨[], x :: xs, rfl, by simp, fun a ha => ?_⟩
      rcases List.mem_cons.1 ha with rfl | ha
      · exact Nat.le_of_not_lt hx
      · have hin := h.2.2.inside (f a) (List.mem_map_of_mem ha)
        have hstop := hin.lower.trans hin.ordered
        omega

/-- The first thing that reaches a position, if it starts there or before. -/
theorem InOrder.first_iff (h : InOrder lo (xs.map f) hi) {offset : Nat} {x : α} :
    (xs[partitionPoint (fun y => decide ((f y).stop < offset)) xs]?.bind fun y =>
        if (f y).start ≤ offset then some y else none) = some x ↔
      ∃ before after, xs = before ++ x :: after ∧ (∀ b ∈ before, (f b).stop < offset) ∧
        (f x).start ≤ offset ∧ offset ≤ (f x).stop := by
  constructor
  · intro hfirst
    obtain ⟨before, after, rfl, hbefore, hafter⟩ := h.exists_cut offset
    rw [getElem?_partitionPoint (fun b hb => decide_eq_true (hbefore b hb))
      (fun a ha => decide_eq_false (Nat.not_lt.2 (hafter a ha)))] at hfirst
    obtain ⟨y, hy, hif⟩ := Option.bind_eq_some_iff.1 hfirst
    obtain ⟨after, rfl⟩ := List.head?_eq_some_iff.1 hy
    split at hif
    · rename_i hstart
      cases hif
      exact ⟨before, after, rfl, hbefore, hstart, hafter x List.mem_cons_self⟩
    · cases hif
  · rintro ⟨before, after, rfl, hbefore, hstart, hstop⟩
    have hafter : ∀ a ∈ x :: after, offset ≤ (f a).stop := by
      intro a ha
      rcases List.mem_cons.1 ha with rfl | ha
      · exact hstop
      · have hp := List.pairwise_map.1 h.pairwise
        have hle := (List.pairwise_cons.1 (List.pairwise_append.1 hp).2.1).1 a ha
        have hordered := (h.inside (f a) (List.mem_map_of_mem (by simp [ha]))).ordered
        omega
    rw [getElem?_partitionPoint (fun b hb => decide_eq_true (hbefore b hb))
      (fun a ha => decide_eq_false (Nat.not_lt.2 (hafter a ha))), List.head?_cons, Option.bind_some,
      if_pos hstart]

/-- Halving finds the first thing around a position. -/
theorem InOrder.first_eq_find? (h : InOrder lo (xs.map f) hi) (offset : Nat) :
    (xs[partitionPoint (fun y => decide ((f y).stop < offset)) xs]?.bind fun y =>
        if (f y).start ≤ offset then some y else none) =
      xs.find? fun y => (f y).touches offset := by
  refine Option.ext fun x => ?_
  rw [h.first_iff, List.find?_eq_some_iff_append]
  constructor
  · rintro ⟨before, after, hsplit, hbefore, hstart, hstop⟩
    refine ⟨touches_iff.2 ⟨hstart, hstop⟩, before, after, hsplit, fun b hb => ?_⟩
    have hlt := hbefore b hb
    simp [touches, Nat.not_le.2 hlt]
  · rintro ⟨htouches, before, after, rfl, hbefore⟩
    obtain ⟨hstart, hstop⟩ := touches_iff.1 htouches
    refine ⟨before, after, rfl, fun b hb => ?_, hstart, hstop⟩
    -- what precedes starts before the position, so it is not around it because it ends earlier
    have hp := List.pairwise_map.1 h.pairwise
    have hle := (List.pairwise_append.1 hp).2.2 b hb x List.mem_cons_self
    have hordered := (h.inside (f b) (List.mem_map_of_mem (by simp [hb]))).ordered
    have hnot := hbefore b hb
    simp only [touches, Bool.not_eq_true', Bool.and_eq_false_iff, decide_eq_false_iff_not] at hnot
    omega

end Span

end TypedTemplate
