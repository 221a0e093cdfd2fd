import LayerLint.Text.Split

/-!
# Texts by bytes

Texts are put in order by the code points of their characters. That is the order of their UTF-8
encodings, byte by byte, since a greater code point never has a smaller encoding.
-/

namespace LayerLint.Text

/-- The UTF-8 encoding of a text. -/
def bytes (s : String) : List UInt8 :=
  s.toUTF8.data.toList

theorem bytes_eq (s : String) : bytes s = s.toList.flatMap String.utf8EncodeChar := by
  have hencode : s.toUTF8 = s.toList.utf8Encode := by
    rw [String.toUTF8_eq_toByteArray, ← String.toByteArray_ofList, String.ofList_toList]
  rw [bytes, hencode, List.utf8Encode, List.toList_data_toByteArray]

/-! ## Single characters -/

theorem code_lt (c : Char) : c.toNat < 0x110000 := by
  rcases c.valid with h | ⟨_, h⟩
  · exact Nat.lt_trans h (by decide)
  · exact h

/-- A character is encoded as the digits of its code point to the base of sixty-four. The first byte
tells how many digits there are. -/
theorem encode_cases (c : Char) :
    (c.toNat < 0x80 ∧ String.utf8EncodeChar c = [UInt8.ofNat c.toNat]) ∨
    (∃ x y, x < 32 ∧ y < 64 ∧ c.toNat = 64 * x + y ∧ 0x80 ≤ c.toNat ∧
      String.utf8EncodeChar c = [UInt8.ofNat (x + 192), UInt8.ofNat (y + 128)]) ∨
    (∃ x y z, x < 16 ∧ y < 64 ∧ z < 64 ∧ c.toNat = 64 * (64 * x + y) + z ∧ 0x800 ≤ c.toNat ∧
      String.utf8EncodeChar c =
        [UInt8.ofNat (x + 224), UInt8.ofNat (y + 128), UInt8.ofNat (z + 128)]) ∨
    ∃ w x y z, w < 8 ∧ x < 64 ∧ y < 64 ∧ z < 64 ∧ c.toNat = 64 * (64 * (64 * w + x) + y) + z ∧
      0x10000 ≤ c.toNat ∧ String.utf8EncodeChar c =
        [UInt8.ofNat (w + 240), UInt8.ofNat (x + 128), UInt8.ofNat (y + 128),
          UInt8.ofNat (z + 128)] := by
  have hlt := code_lt c
  simp only [String.utf8EncodeChar, Char.toNat_val]
  split
  · exact Or.inl ⟨by omega, rfl⟩
  · split
    · refine Or.inr (Or.inl ⟨c.toNat / 64 % 32, c.toNat % 64, ?_, ?_, ?_, ?_, rfl⟩) <;> omega
    · split
      · refine Or.inr (Or.inr (Or.inl ⟨c.toNat / 4096 % 16, c.toNat / 64 % 64, c.toNat % 64,
          ?_, ?_, ?_, ?_, ?_, rfl⟩)) <;> omega
      · refine Or.inr (Or.inr (Or.inr ⟨c.toNat / 262144 % 8, c.toNat / 4096 % 64,
          c.toNat / 64 % 64, c.toNat % 64, ?_, ?_, ?_, ?_, ?_, ?_, rfl⟩)) <;> omega

/-- The smaller code point has the smaller encoding, whatever follows. -/
theorem encode_lt {a b : Char} (h : a.toNat < b.toNat) (as bs : List UInt8) :
    String.utf8EncodeChar a ++ as < String.utf8EncodeChar b ++ bs := by
  -- The first bytes tell encodings of different lengths apart, the digits those of one length.
  rcases encode_cases a with ⟨_, ea⟩ | ⟨_, _, _, _, _, _, ea⟩ | ⟨_, _, _, _, _, _, _, _, ea⟩ |
    ⟨_, _, _, _, _, _, _, _, _, _, ea⟩ <;>
  rcases encode_cases b with ⟨_, eb⟩ | ⟨_, _, _, _, _, _, eb⟩ | ⟨_, _, _, _, _, _, _, _, eb⟩ |
    ⟨_, _, _, _, _, _, _, _, _, _, eb⟩ <;>
  simp only [ea, eb, List.cons_append, List.nil_append, List.cons_lt_cons_iff,
    UInt8.lt_iff_toNat_lt, ← UInt8.toNat_inj, UInt8.toNat_ofNat'] <;>
  omega

/-! ## Texts -/

theorem notAfter_iff_encode (as bs : List Char) :
    notAfter as bs = true ↔
      as.flatMap String.utf8EncodeChar ≤ bs.flatMap String.utf8EncodeChar := by
  induction as generalizing bs with
  | nil => simp [notAfter]
  | cons a as ih =>
      cases bs with
      | nil => simp [notAfter]
      | cons b bs =>
          rw [List.flatMap_cons, List.flatMap_cons]
          rcases Nat.lt_trichotomy a.toNat b.toNat with hlt | heq | hgt
          · have hle := List.le_of_lt
              (encode_lt hlt (as.flatMap String.utf8EncodeChar) (bs.flatMap String.utf8EncodeChar))
            simp [notAfter, hlt, hle]
          · obtain rfl := Char.toNat_inj.1 heq
            have hrest : notAfter (a :: as) (a :: bs) = notAfter as bs := by simp [notAfter]
            rw [hrest, ih]
            exact ⟨List.append_left_le, fun hle hlt => hle (List.append_left_lt hlt)⟩
          · have hnot : notAfter (a :: as) (b :: bs) = false := by
              simp [notAfter, Nat.not_lt_of_gt hgt, Nat.ne_of_gt hgt]
            rw [hnot]
            exact iff_of_false Bool.false_ne_true (not_not_intro (encode_lt hgt _ _))

/-- The order of texts is the order of their bytes. -/
theorem notAfter_iff_bytes (s t : String) :
    notAfter s.toList t.toList = true ↔ bytes s ≤ bytes t := by
  rw [notAfter_iff_encode, bytes_eq, bytes_eq]

end LayerLint.Text
