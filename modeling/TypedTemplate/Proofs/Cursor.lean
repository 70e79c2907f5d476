/-
Places of one text. A reader that starts at a place ends at one that it reaches: the characters in
between are what it took. Reaching a place keeps the end of the text, so positions never leave it.
-/
import TypedTemplate.Text.Measure
import Mathlib.Tactic

namespace TypedTemplate.Cursor

open Text

/-- `d` is `c` or a later place of the same text. -/
def Reaches (c d : Cursor) : Prop :=
  ∃ taken, c.rest = taken ++ d.rest ∧ d.pos = c.pos + byteLength taken

theorem Reaches.refl (c : Cursor) : c.Reaches c := ⟨[], by simp⟩

theorem Reaches.trans {a b c : Cursor} (h : a.Reaches b) (h' : b.Reaches c) : a.Reaches c := by
  obtain ⟨xs, hr, hp⟩ := h
  obtain ⟨ys, hr', hp'⟩ := h'
  exact ⟨xs ++ ys, by rw [hr, hr', List.append_assoc], by rw [hp', hp, byteLength_append]; omega⟩

theorem Reaches.pos_le {c d : Cursor} (h : c.Reaches d) : c.pos ≤ d.pos := by
  obtain ⟨taken, -, hp⟩ := h
  omega

theorem Reaches.stop_eq {c d : Cursor} (h : c.Reaches d) : d.stop = c.stop := by
  obtain ⟨taken, hr, hp⟩ := h
  simp only [stop, hr, hp, byteLength_append]
  omega

theorem reaches_advance (c : Cursor) (n : Nat) : c.Reaches (c.advance n) :=
  ⟨c.rest.take n, (List.take_append_drop n c.rest).symm, rfl⟩

theorem Reaches.advance_one {c d : Cursor} (h : c.Reaches d) : (c.advance 1).Reaches (d.advance 1) := by
  obtain ⟨taken, hrest, hpos⟩ := h
  cases taken with
  | nil =>
    have hsame : d = c := by
      cases c
      cases d
      simp_all
    rw [hsame]
    exact .refl _
  | cons x taken =>
    have hnext : (c.advance 1).Reaches d := by
      refine ⟨taken, ?_, ?_⟩
      · simp [advance, hrest]
      · simp [advance, hrest, hpos, Nat.add_assoc]
    exact hnext.trans (d.reaches_advance 1)

theorem advance_add (c : Cursor) (m n : Nat) : c.advance (m + n) = (c.advance m).advance n := by
  simp only [advance, List.take_add, List.drop_drop, byteLength_append, Nat.add_assoc]

theorem advance_lt {c : Cursor} (hc : c.rest ≠ []) {n : Nat} (hn : 0 < n) : c.pos < (c.advance n).pos := by
  obtain ⟨k, rfl⟩ := Nat.exists_eq_succ_of_ne_zero hn.ne'
  cases hrest : c.rest with
  | nil => exact absurd hrest hc
  | cons d ds =>
    have := d.utf8Size_pos
    simp only [advance, hrest, List.take_succ_cons, byteLength_cons]
    omega

theorem reaches_skipWhile (p : Char → Bool) (c : Cursor) : c.Reaches (c.skipWhile p) :=
  ⟨c.rest.takeWhile p, List.takeWhile_append_dropWhile.symm, rfl⟩

/-- A run of characters is as long as the way to its end. -/
theorem pos_skipWhile (p : Char → Bool) (c : Cursor) :
    (c.skipWhile p).pos = c.pos + Text.size (c.run p) := by
  simp [skipWhile, run, Text.size_eq_byteLength]

@[simp] theorem stop_ofText (s : String) : (ofText s).stop = Text.size s := by
  simp [ofText, stop, Text.size_eq_byteLength]

end TypedTemplate.Cursor
