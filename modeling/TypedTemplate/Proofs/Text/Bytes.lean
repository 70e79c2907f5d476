/-
The bytes of a text. An ASCII character is one byte below 128, and every byte of any other character is 128 or
more, so an ASCII byte of a text is a character of it and stands between characters.
-/
import TypedTemplate.Proofs.Text.Slice

namespace TypedTemplate.Text

variable {c : Char}

/-- The bytes of a run of characters. -/
def bytes (cs : List Char) : List UInt8 := cs.flatMap String.utf8EncodeChar

@[simp] theorem bytes_nil : bytes [] = [] := rfl

@[simp] theorem bytes_cons (c : Char) (cs : List Char) :
    bytes (c :: cs) = String.utf8EncodeChar c ++ bytes cs :=
  rfl

@[simp] theorem bytes_append (xs ys : List Char) : bytes (xs ++ ys) = bytes xs ++ bytes ys :=
  List.flatMap_append

@[simp] theorem length_bytes (cs : List Char) : (bytes cs).length = byteLength cs := by
  induction cs with
  | nil => rfl
  | cons c cs ih => simp [ih, String.length_utf8EncodeChar]

/-- The bytes of a text, read as a text, are the text. -/
theorem fromUTF8?_bytes (s : String) : String.fromUTF8? (bytes s.toList).toByteArray = some s := by
  have hbytes : (bytes s.toList).toByteArray = s.toByteArray := String.utf8Encode_toList
  rw [hbytes, String.fromUTF8?, dif_pos s.isValidUTF8]
  rfl

/-! ## ASCII -/

/-- The byte of an ASCII character. -/
def byte (c : Char) : UInt8 := c.val.toUInt8

/-- Whether a byte is an ASCII character that satisfies `p`. -/
def ascii (p : Char → Bool) (b : UInt8) : Bool := decide (b < 128) && p (Char.ofUInt8 b)

theorem encode_of_low (h : c.utf8Size = 1) : String.utf8EncodeChar c = [byte c] :=
  String.utf8EncodeChar_eq_singleton h

theorem utf8Size_of_isAlphanum (h : c.isAlphanum = true) : c.utf8Size = 1 := by
  have hrange : (decide (c.val ≥ 'A'.val ∧ c.val ≤ 'Z'.val) ||
      decide (c.val ≥ 'a'.val) && decide (c.val ≤ 'z'.val) ||
      decide (c.val ≥ '0'.val) && decide (c.val ≤ '9'.val)) = true := h
  have hZ : 'Z'.val.toNat = 90 := rfl
  have hz : 'z'.val.toNat = 122 := rfl
  have h9 : '9'.val.toNat = 57 := rfl
  have h127 : (127 : UInt32).toNat = 127 := rfl
  simp only [Bool.or_eq_true, Bool.and_eq_true, decide_eq_true_eq, ge_iff_le, UInt32.le_iff_toNat_le] at hrange
  rw [Char.utf8Size_eq_one_iff, UInt32.le_iff_toNat_le]
  omega

theorem utf8Size_of_isAlpha (h : c.isAlpha = true) : c.utf8Size = 1 :=
  utf8Size_of_isAlphanum (Bool.or_eq_true_iff.2 (.inl h))

/-- The bytes of a character that is not ASCII are none of ASCII. -/
theorem encode_of_high (h : c.utf8Size ≠ 1) : ∀ b ∈ String.utf8EncodeChar c, 128 ≤ b := by
  have hval : ¬ c.val.toNat ≤ 127 := fun hle =>
    h (Char.utf8Size_eq_one_iff.2 (UInt32.le_iff_toNat_le.2 hle))
  have hge : ∀ n : Nat, 128 ≤ n % 256 → (128 : UInt8) ≤ UInt8.ofNat n := by
    intro n hn
    rw [UInt8.le_iff_toNat_le, UInt8.toNat_ofNat']
    exact hn
  intro b hb
  rw [String.utf8EncodeChar, if_neg hval] at hb
  split at hb
  · simp only [List.mem_cons, List.not_mem_nil, or_false] at hb
    rcases hb with rfl | rfl <;> exact hge _ (by omega)
  · split at hb
    · simp only [List.mem_cons, List.not_mem_nil, or_false] at hb
      rcases hb with rfl | rfl | rfl <;> exact hge _ (by omega)
    · simp only [List.mem_cons, List.not_mem_nil, or_false] at hb
      rcases hb with rfl | rfl | rfl | rfl <;> exact hge _ (by omega)

theorem byte_lt (h : c.utf8Size = 1) : byte c < 128 := by
  have hle := UInt32.le_iff_toNat_le.1 (Char.utf8Size_eq_one_iff.1 h)
  rw [UInt8.lt_iff_toNat_lt, byte, UInt32.toNat_toUInt8]
  have h127 : (127 : UInt32).toNat = 127 := rfl
  have h128 : (128 : UInt8).toNat = 128 := rfl
  omega

theorem ofUInt8_byte (h : c.utf8Size = 1) : Char.ofUInt8 (byte c) = c := by
  have hle := UInt32.le_iff_toNat_le.1 (Char.utf8Size_eq_one_iff.1 h)
  have h127 : (127 : UInt32).toNat = 127 := rfl
  refine Char.ext (UInt32.toNat_inj.1 ?_)
  show (byte c).toUInt32.toNat = c.val.toNat
  rw [UInt8.toNat_toUInt32, byte, UInt32.toNat_toUInt8]
  omega

theorem ascii_byte (h : c.utf8Size = 1) (p : Char → Bool) : ascii p (byte c) = p c := by
  rw [ascii, ofUInt8_byte h, decide_eq_true (byte_lt h), Bool.true_and]

theorem ascii_of_le {b : UInt8} (h : 128 ≤ b) (p : Char → Bool) : ascii p b = false := by
  rw [ascii, decide_eq_false (UInt8.not_lt.2 h), Bool.false_and]

/-- The first byte of a character. -/
def firstByte (c : Char) : UInt8 := (String.utf8EncodeChar c).headD 0

theorem firstByte_of_low (h : c.utf8Size = 1) : firstByte c = byte c := by
  rw [firstByte, encode_of_low h]
  rfl

theorem encode_eq_cons (c : Char) : ∃ bs, String.utf8EncodeChar c = firstByte c :: bs := by
  cases h : String.utf8EncodeChar c with
  | nil => exact absurd h String.utf8EncodeChar_ne_nil
  | cons b bs => exact ⟨bs, by rw [firstByte, h]; rfl⟩

theorem firstByte_of_high (h : c.utf8Size ≠ 1) : 128 ≤ firstByte c := by
  obtain ⟨bs, hbs⟩ := encode_eq_cons c
  exact encode_of_high h _ (by rw [hbs]; exact List.mem_cons_self)

/-- An ASCII character is told by its byte. -/
theorem firstByte_eq_byte {d : Char} (hd : d.utf8Size = 1) : firstByte c = byte d ↔ c = d := by
  constructor
  · intro h
    have hc : c.utf8Size = 1 := by
      by_contra hc
      have hhigh := firstByte_of_high hc
      rw [h] at hhigh
      exact absurd (byte_lt hd) (UInt8.not_lt.2 hhigh)
    rw [firstByte_of_low hc] at h
    rw [← ofUInt8_byte hc, h, ofUInt8_byte hd]
  · rintro rfl
    exact firstByte_of_low hd

/-- An ASCII byte stands for itself only. -/
theorem eq_of_byte_mem {d : Char} (hd : d.utf8Size = 1) (h : byte d ∈ String.utf8EncodeChar c) : c = d := by
  by_cases hc : c.utf8Size = 1
  · rw [encode_of_low hc, List.mem_singleton] at h
    rw [← ofUInt8_byte hc, ← h, ofUInt8_byte hd]
  · exact absurd (byte_lt hd) (UInt8.not_lt.2 (encode_of_high hc _ h))

/-- A property of ASCII characters is told by the first byte. -/
theorem ascii_firstByte {p : Char → Bool} (hp : ∀ c, p c = true → c.utf8Size = 1) (c : Char) :
    ascii p (firstByte c) = p c := by
  by_cases hc : c.utf8Size = 1
  · rw [firstByte_of_low hc, ascii_byte hc]
  · rw [ascii_of_le (firstByte_of_high hc)]
    exact (Bool.eq_false_of_not_eq_true fun h => hc (hp c h)).symm

/-- The characters of an ASCII text are its bytes, and these are told without decoding it. -/
theorem toList_eq_map_bytes {s : String} (h : s.toByteArray.data.toList.all (· < 128) = true) :
    s.toList = s.toByteArray.data.toList.map Char.ofUInt8 := by
  have hbytes : s.toByteArray.data.toList = bytes s.toList := by
    rw [← String.utf8Encode_toList]
    simp [bytes, List.utf8Encode]
  rw [hbytes] at h ⊢
  generalize s.toList = cs at h
  induction cs with
  | nil => rfl
  | cons c cs ih =>
    rw [bytes_cons, List.all_append, Bool.and_eq_true] at h
    have hc : c.utf8Size = 1 := by
      by_contra hc
      obtain ⟨bs, hbs⟩ := encode_eq_cons c
      simp [hbs, UInt8.not_lt.2 (firstByte_of_high hc)] at h
    rw [bytes_cons, encode_of_low hc, List.map_append, ← ih h.2, List.map_singleton, ofUInt8_byte hc]
    rfl

/-! ## Bytes at positions -/

theorem getElem?_bytes (done : List Char) (c : Char) (rest : List Char) :
    (bytes (done ++ c :: rest))[byteLength done]? = some (firstByte c) := by
  obtain ⟨bs, hbs⟩ := encode_eq_cons c
  rw [bytes_append, List.getElem?_append_right (by simp), length_bytes, Nat.sub_self, bytes_cons, hbs]
  rfl

theorem getElem?_bytes_end (cs : List Char) {n : Nat} (h : byteLength cs ≤ n) : (bytes cs)[n]? = none :=
  List.getElem?_eq_none (by rw [length_bytes]; exact h)

/-- The bytes of a character that is not ASCII, where it stands. -/
theorem getElem?_bytes_of_high (hc : c.utf8Size ≠ 1) (done rest : List Char) {i : Nat} (hi : i < c.utf8Size) :
    ∃ b, (bytes (done ++ c :: rest))[byteLength done + i]? = some b ∧ 128 ≤ b := by
  have hlength : i < (String.utf8EncodeChar c).length := by rw [String.length_utf8EncodeChar]; exact hi
  refine ⟨(String.utf8EncodeChar c)[i], ?_, encode_of_high hc _ (List.getElem_mem hlength)⟩
  rw [bytes_append, List.getElem?_append_right (by simp), length_bytes, Nat.add_sub_cancel_left, bytes_cons,
    List.getElem?_append_left hlength, List.getElem?_eq_getElem hlength]

end TypedTemplate.Text
