/-
Slices of a text. A text has a slice between two positions exactly if it splits there, and then the
slice is what stands between.
-/
import TypedTemplate.Text.Measure
import Mathlib.Tactic

namespace TypedTemplate.Text

variable {n start stop : Nat} {cs before after word : List Char} {text s : String}

theorem dropBytes_eq_some_iff {rest : List Char} :
    dropBytes n cs = some rest ↔ ∃ before, cs = before ++ rest ∧ n = byteLength before := by
  constructor
  · intro h
    fun_induction dropBytes n cs with
    | case1 => exact ⟨[], by simpa using h⟩
    | case2 => cases h
    | case3 => exact ⟨[], by simpa using h⟩
    | case4 n c cs _ hle ih =>
      obtain ⟨before, hcs, hn⟩ := ih h
      exact ⟨c :: before, by rw [hcs, List.cons_append], by rw [byteLength_cons]; omega⟩
    | case5 => cases h
  · rintro ⟨before, rfl, rfl⟩
    exact dropBytes_append before rest

theorem takeBytes_eq_some_iff {front : List Char} :
    takeBytes n cs = some front ↔ ∃ after, cs = front ++ after ∧ n = byteLength front := by
  constructor
  · intro h
    fun_induction takeBytes n cs generalizing front with
    | case1 =>
      cases h
      exact ⟨[], by simp⟩
    | case2 => cases h
    | case3 c cs =>
      cases h
      exact ⟨c :: cs, by simp⟩
    | case4 n c cs _ hle ih =>
      obtain ⟨front', hfront, rfl⟩ := Option.map_eq_some_iff.1 h
      obtain ⟨after, hcs, hn⟩ := ih hfront
      exact ⟨after, by rw [hcs, List.cons_append], by rw [byteLength_cons]; omega⟩
    | case5 => cases h
  · rintro ⟨after, rfl, rfl⟩
    exact takeBytes_append front after

theorem slice_eq_some_iff :
    slice text start stop = some s ↔ ∃ before after,
      text.toList = before ++ (s.toList ++ after) ∧ start = byteLength before ∧
        stop = start + size s := by
  unfold slice
  constructor
  · intro h
    split at h
    · rename_i hle
      obtain ⟨front, hfront, rfl⟩ := Option.map_eq_some_iff.1 h
      obtain ⟨rest, hrest, hfront⟩ := Option.bind_eq_some_iff.1 hfront
      obtain ⟨before, hcs, hstart⟩ := dropBytes_eq_some_iff.1 hrest
      obtain ⟨after, hrest, hstop⟩ := takeBytes_eq_some_iff.1 hfront
      refine ⟨before, after, by simp [hcs, hrest], hstart, ?_⟩
      simp only [size_eq_byteLength, String.toList_ofList]
      omega
    · cases h
  · rintro ⟨before, after, hcs, hstart, hstop⟩
    have hdrop : dropBytes start text.toList = some (s.toList ++ after) :=
      dropBytes_eq_some_iff.2 ⟨before, hcs, hstart⟩
    have htake : takeBytes (stop - start) (s.toList ++ after) = some s.toList :=
      takeBytes_eq_some_iff.2 ⟨after, rfl, by rw [← size_eq_byteLength]; omega⟩
    rw [if_pos (by omega), hdrop, Option.bind_some, htake]
    simp

/-- A slice is as long as its span, and lies in the text. -/
theorem size_of_slice (h : slice text start stop = some s) : stop = start + size s ∧ stop ≤ size text := by
  obtain ⟨before, after, hcs, hstart, hstop⟩ := slice_eq_some_iff.1 h
  refine ⟨hstop, ?_⟩
  rw [size_eq_byteLength text, hcs, byteLength_append, byteLength_append, ← size_eq_byteLength s]
  omega

theorem slice_self (text : String) : slice text 0 (size text) = some text :=
  slice_eq_some_iff.2 ⟨[], [], by simp, rfl, by rw [Nat.zero_add]⟩

/-! ## Between characters -/

/-- A position of a text that cuts no character. -/
def Boundary (text : String) (n : Nat) : Prop :=
  ∃ before after, text.toList = before ++ after ∧ n = byteLength before

theorem boundary_iff : Boundary text n ↔ (dropBytes n text.toList).isSome := by
  rw [Option.isSome_iff_exists]
  constructor
  · rintro ⟨before, after, htext, hn⟩
    exact ⟨after, dropBytes_eq_some_iff.2 ⟨before, htext, hn⟩⟩
  · rintro ⟨after, h⟩
    obtain ⟨before, htext, hn⟩ := dropBytes_eq_some_iff.1 h
    exact ⟨before, after, htext, hn⟩

instance (text : String) (n : Nat) : Decidable (Boundary text n) :=
  decidable_of_iff _ boundary_iff.symm

theorem boundary_zero (text : String) : Boundary text 0 := ⟨[], text.toList, rfl, rfl⟩

theorem boundary_size (text : String) : Boundary text (size text) :=
  ⟨text.toList, [], by rw [List.append_nil], size_eq_byteLength text⟩

theorem Boundary.le (h : Boundary text n) : n ≤ size text := by
  obtain ⟨before, after, htext, rfl⟩ := h
  rw [size_eq_byteLength, htext, byteLength_append]
  exact Nat.le_add_right _ _

/-- What is taken up to a character that stops it lies before that character. -/
theorem byteLength_takeWhile_le {p : Char → Bool} {c : Char} (hc : p c = false) (after : List Char) :
    ∀ before, byteLength ((before ++ c :: after).takeWhile p) ≤ byteLength before
  | [] => by
    rw [List.nil_append, List.takeWhile_cons_of_neg (by rw [hc]; exact Bool.false_ne_true)]
  | b :: before => by
    rw [List.cons_append, List.takeWhile_cons]
    split
    · rw [byteLength_cons, byteLength_cons]
      exact Nat.add_le_add_left (byteLength_takeWhile_le hc after before) _
    · exact Nat.zero_le _

/-- Of two cuts of one text the earlier one leaves a part of what the later one leaves. -/
theorem exists_between {before' after' : List Char} (h : before ++ after = before' ++ after')
    (hle : byteLength before ≤ byteLength before') :
    ∃ between, before' = before ++ between ∧ after = between ++ after' := by
  rcases List.append_eq_append_iff.1 h with ⟨between, hb, ha⟩ | ⟨between, hb, ha⟩
  · exact ⟨between, hb, ha⟩
  · -- the other way round nothing can stand between them
    have hlen : between.length = 0 := by
      have := length_le_byteLength between
      rw [hb, byteLength_append] at hle
      omega
    rw [List.length_eq_zero_iff.1 hlen] at ha hb
    exact ⟨[], by simpa using hb.symm, by simpa using ha.symm⟩

/-- A text has one cut at a position. -/
theorem append_inj_of_byteLength {before' after' : List Char} (h : before ++ after = before' ++ after')
    (hlength : byteLength before = byteLength before') : before = before' ∧ after = after' := by
  obtain ⟨between, rfl, rfl⟩ := exists_between h hlength.le
  have hlen : between.length = 0 := by
    have := length_le_byteLength between
    rw [byteLength_append] at hlength
    omega
  rw [List.length_eq_zero_iff.1 hlen]
  simp

theorem exists_slice (hstart : Boundary text start) (hstop : Boundary text stop) (hle : start ≤ stop) :
    ∃ s, slice text start stop = some s := by
  obtain ⟨before, after, htext, rfl⟩ := hstart
  obtain ⟨before', after', htext', rfl⟩ := hstop
  obtain ⟨between, rfl, -⟩ := exists_between (htext.symm.trans htext') hle
  refine ⟨String.ofList between, slice_eq_some_iff.2 ⟨before, after', ?_, rfl, ?_⟩⟩
  · rw [htext', String.toList_ofList, List.append_assoc]
  · rw [byteLength_append, size_eq_byteLength, String.toList_ofList]

/-- What is between characters of a text is so in any slice around it. -/
theorem Boundary.of_slice (h : slice text start stop = some s) (hn : Boundary text n) (hstart : start ≤ n)
    (hstop : n ≤ stop) : Boundary s (n - start) := by
  obtain ⟨before, after, htext, rfl, rfl⟩ := slice_eq_some_iff.1 h
  obtain ⟨front, back, htext', rfl⟩ := hn
  obtain ⟨inner, rfl, hinner⟩ := exists_between (htext.symm.trans htext') hstart
  rw [byteLength_append, size_eq_byteLength] at hstop
  obtain ⟨more, hmore, -⟩ := exists_between hinner.symm (by omega)
  refine ⟨inner, more, hmore, ?_⟩
  rw [byteLength_append, Nat.add_sub_cancel_left]

/-- A part of a part. -/
theorem slice_of_slice {t : String} {first last : Nat} (h : slice text start stop = some s)
    (ht : slice s first last = some t) : slice text (start + first) (start + last) = some t := by
  obtain ⟨before, after, htext, rfl, -⟩ := slice_eq_some_iff.1 h
  obtain ⟨front, back, hs, rfl, rfl⟩ := slice_eq_some_iff.1 ht
  refine slice_eq_some_iff.2 ⟨before ++ front, back ++ after, ?_, ?_, ?_⟩
  · simp only [htext, hs, List.append_assoc]
  · rw [byteLength_append]
  · rw [Nat.add_assoc]

/-! ## Searching -/

theorem splitAtFirst_eq_some {word : List Char} :
    ∀ {cs before after : List Char}, splitAtFirst word cs = some (before, after) →
      cs = before ++ (word ++ after)
  | [], before, after, h => by
    rw [splitAtFirst] at h
    split at h
    · rename_i hword
      cases h
      rw [hword]
      rfl
    · cases h
  | c :: cs, before, after, h => by
    rw [splitAtFirst] at h
    split at h
    · rename_i hprefix
      cases h
      obtain ⟨rest, hrest⟩ := List.isPrefixOf_iff_prefix.1 hprefix
      rw [← hrest, List.drop_left, List.nil_append]
    · obtain ⟨⟨before', after'⟩, hsplit, heq⟩ := Option.map_eq_some_iff.1 h
      cases heq
      rw [splitAtFirst_eq_some hsplit, List.cons_append]

theorem isSome_splitAtFirst (word before after : List Char) :
    (splitAtFirst word (before ++ (word ++ after))).isSome = true := by
  induction before with
  | nil =>
    cases hcs : word ++ after with
    | nil => simp [splitAtFirst, (List.append_eq_nil_iff.1 hcs).1]
    | cons c cs =>
      have hprefix : word.isPrefixOf (c :: cs) = true :=
        List.isPrefixOf_iff_prefix.2 (hcs ▸ List.prefix_append word after)
      rw [List.nil_append, splitAtFirst, if_pos hprefix]
      rfl
  | cons b before ih =>
    rw [List.cons_append, splitAtFirst]
    split
    · rfl
    · rw [Option.isSome_map]
      exact ih

/-- A word that occurs is a stretch of the characters. -/
theorem occursIn_iff : occursIn word cs = true ↔ word <:+: cs := by
  constructor
  · intro h
    obtain ⟨⟨before, after⟩, hsplit⟩ := Option.isSome_iff_exists.1 h
    exact ⟨before, after, by rw [splitAtFirst_eq_some hsplit, List.append_assoc]⟩
  · rintro ⟨before, after, rfl⟩
    rw [List.append_assoc]
    exact isSome_splitAtFirst word before after

/-- A word that is not found stands nowhere. -/
theorem not_prefix_of_splitAtFirst_eq_none (h : splitAtFirst word cs = none) (n : Nat) : ¬ word <+: cs.drop n := by
  intro hword
  have hoccurs : occursIn word cs = true :=
    occursIn_iff.2 (hword.isInfix.trans (List.drop_suffix n cs).isInfix)
  rw [occursIn, h] at hoccurs
  cases hoccurs

/-- A word is found at the first place where it stands. -/
theorem not_prefix_of_splitAtFirst {word : List Char} :
    ∀ {cs before after : List Char}, splitAtFirst word cs = some (before, after) →
      ∀ n < before.length, ¬ word <+: cs.drop n
  | [], before, after, h, n, hn => by
    rw [splitAtFirst] at h
    split at h
    · cases h
      cases hn
    · cases h
  | c :: cs, before, after, h, n, hn => by
    rw [splitAtFirst] at h
    split at h
    · cases h
      cases hn
    · rename_i hnot
      obtain ⟨⟨before', after'⟩, hsplit, heq⟩ := Option.map_eq_some_iff.1 h
      cases heq
      cases n with
      | zero => exact fun hword => hnot (List.isPrefixOf_iff_prefix.2 hword)
      | succ n => exact not_prefix_of_splitAtFirst hsplit n (Nat.lt_of_succ_lt_succ hn)

theorem splitAtFirst_eq_some_iff :
    splitAtFirst word cs = some (before, after) ↔
      cs = before ++ (word ++ after) ∧ ∀ n < before.length, ¬ word <+: cs.drop n := by
  constructor
  · intro h
    exact ⟨splitAtFirst_eq_some h, not_prefix_of_splitAtFirst h⟩
  · rintro ⟨rfl, hfirst⟩
    obtain ⟨⟨before', after'⟩, hsplit⟩ := Option.isSome_iff_exists.1 (isSome_splitAtFirst word before after)
    have hcs := splitAtFirst_eq_some hsplit
    -- neither place comes before the other
    have hat : word <+: (before ++ (word ++ after)).drop before.length := by simp
    have hat' : word <+: (before ++ (word ++ after)).drop before'.length := by simp [hcs]
    have hlength : before.length = before'.length := by
      rcases Nat.lt_trichotomy before.length before'.length with hlt | heq | hlt
      · exact absurd hat (not_prefix_of_splitAtFirst hsplit _ hlt)
      · exact heq
      · exact absurd hat' (hfirst _ hlt)
    obtain ⟨rfl, hrest⟩ := List.append_inj hcs hlength
    rw [hsplit, List.append_cancel_left hrest]

/-- The first place of a character. -/
theorem splitAtFirst_singleton {c : Char} :
    splitAtFirst [c] cs = some (before, after) ↔ cs = before ++ c :: after ∧ c ∉ before := by
  rw [splitAtFirst_eq_some_iff, List.singleton_append]
  refine and_congr_right fun hcs => ?_
  subst hcs
  constructor
  · intro h hmem
    obtain ⟨front, back, rfl⟩ := List.append_of_mem hmem
    refine h front.length (by simp) ⟨back ++ c :: after, ?_⟩
    simp
  · intro hmem n hn hword
    obtain ⟨rest, hrest⟩ := hword
    have hget : (before ++ c :: after)[n]? = some c := by
      rw [← Nat.add_zero n, ← List.getElem?_drop, ← hrest]
      rfl
    rw [List.getElem?_append_left hn] at hget
    exact hmem (List.mem_of_getElem? hget)

theorem stripStart?_eq_some {rest : List Char} (h : stripStart? word cs = some rest) : cs = word ++ rest := by
  unfold stripStart? at h
  split at h
  · rename_i hprefix
    cases h
    obtain ⟨rest, rfl⟩ := List.isPrefixOf_iff_prefix.1 hprefix
    rw [List.drop_left]
  · cases h

theorem stripEnd?_eq_some {front : List Char} (h : stripEnd? word cs = some front) : cs = front ++ word := by
  obtain ⟨rest, hrest, rfl⟩ := Option.map_eq_some_iff.1 h
  have := congrArg List.reverse (stripStart?_eq_some hrest)
  simpa using this

end TypedTemplate.Text
