import LayerLint.Json.Printer
import LayerLint.Json.Reader
import LayerLint.Proofs.Text.Split

/-!
# Printed texts and counts

Every text is read back from its string, whatever characters it holds, and every count from its
digits.
-/

namespace LayerLint.Json

variable {cs rest : List Char}

/-! ## Strings -/

/-- What an escaped character is read as: most control characters come back by their number. -/
def pieceOf (c : Char) : Piece :=
  if c ∈ ['\n', '\r', '\t', '\x08', '\x0c'] then .char c
  else if c.toNat < 0x20 then .unit c.toNat
  else .char c

/-- A character is escaped by a letter, by its number, or not at all. -/
theorem escapeChar_cases (c : Char) :
    (∃ e, e ≠ 'u' ∧ escaped? e = some c ∧ escapeChar c = ['\\', e] ∧ pieceOf c = .char c) ∨
    (c.toNat < 0x20 ∧
      escapeChar c = ['\\', 'u', '0', '0', hexDigit (c.toNat / 16), hexDigit (c.toNat % 16)] ∧
      pieceOf c = .unit c.toNat) ∨
    (c ≠ '"' ∧ c ≠ '\\' ∧ ¬c.toNat < 0x20 ∧ escapeChar c = [c] ∧ pieceOf c = .char c) := by
  by_cases hletter : c ∈ ['"', '\\', '\n', '\r', '\t', '\x08', '\x0c']
  · refine Or.inl ?_
    simp only [List.mem_cons, List.not_mem_nil, or_false] at hletter
    rcases hletter with rfl | rfl | rfl | rfl | rfl | rfl | rfl <;>
      exact ⟨_, by decide, rfl, rfl, rfl⟩
  · simp only [List.mem_cons, List.not_mem_nil, or_false, not_or] at hletter
    by_cases hcontrol : c.toNat < 0x20
    · exact Or.inr (Or.inl ⟨hcontrol, by simp [escapeChar, hletter, hcontrol],
        by simp [pieceOf, hletter, hcontrol]⟩)
    · exact Or.inr (Or.inr ⟨hletter.1, hletter.2.1, hcontrol,
        by simp [escapeChar, hletter, hcontrol], by simp [pieceOf, hletter, hcontrol]⟩)

theorem hex?_control {n : Nat} (h : n < 0x20) :
    Text.hex? ['0', '0', hexDigit (n / 16), hexDigit (n % 16)] = some n := by
  have hall : ∀ k < 0x20, Text.hex? ['0', '0', hexDigit (k / 16), hexDigit (k % 16)] = some k := by
    decide
  exact hall n h

theorem readPieces_escapeChar (done : List Piece) (c : Char) (cs : List Char) :
    readPieces done (escapeChar c ++ cs) = readPieces (pieceOf c :: done) cs := by
  rcases escapeChar_cases c with ⟨e, hne, hletter, hescape, hpiece⟩ |
    ⟨hcontrol, hescape, hpiece⟩ | ⟨hquote, hback, hcontrol, hescape, hpiece⟩
  · rw [hescape, hpiece, List.cons_append, List.singleton_append, readPieces, hletter]
    · rfl
    · exact fun _ _ _ _ _ heq _ => hne heq
  · rw [hescape, hpiece]
    simp only [List.cons_append, List.nil_append, readPieces, hex?_control hcontrol]
    rfl
  · rw [hescape, hpiece, List.singleton_append, readPieces, if_neg hcontrol]
    · exact hquote
    · exact fun _ _ _ _ _ heq _ => hback heq
    · exact fun _ _ heq _ => hback heq

theorem readPieces_escaped (done : List Piece) (cs rest : List Char) :
    readPieces done (cs.flatMap escapeChar ++ '"' :: rest) =
      some (done.reverse ++ cs.map pieceOf, rest) := by
  induction cs generalizing done with
  | nil => simp [readPieces]
  | cons c cs ih =>
      rw [List.flatMap_cons, List.append_assoc, readPieces_escapeChar, ih]
      simp

theorem spell_unit {n : Nat} (h : n < 0x20) (done : List Char) (pieces : List Piece) :
    spell done (.unit n :: pieces) = spell (Char.ofNat n :: done) pieces := by
  have hlead : isLeading n = false := by
    simp [isLeading]
    omega
  have htrail : isTrailing n = false := by
    simp [isTrailing]
    omega
  rcases pieces with _ | ⟨c | m, pieces⟩ <;> simp [spell, hlead, htrail]

theorem spell_pieceOf (done cs : List Char) :
    spell done (cs.map pieceOf) = some (cs.reverse ++ done) := by
  induction cs generalizing done with
  | nil => rfl
  | cons c cs ih =>
      have hpiece :
          spell done (pieceOf c :: cs.map pieceOf) = spell (c :: done) (cs.map pieceOf) := by
        unfold pieceOf
        split
        · rfl
        · split
          · rename_i hcontrol
            rw [spell_unit hcontrol, Char.ofNat_toNat]
          · rfl
      rw [List.map_cons, hpiece, ih]
      simp

theorem readString_escaped (text : String) (rest : List Char) :
    readString (text.toList.flatMap escapeChar ++ '"' :: rest) = some (some text, rest) := by
  simp [readString, readPieces_escaped, spell_pieceOf]

theorem toList_quote (text : String) :
    (quote text).toList = '"' :: (text.toList.flatMap escapeChar ++ ['"']) := by
  simp [quote, Text.expand]

/-! ## Counts -/

/-- The text cannot go on with a number. -/
def EndsNumber (rest : List Char) : Prop :=
  ∀ c ∈ rest.head?, c.isDigit = false ∧ c ≠ '.' ∧ c ≠ 'e' ∧ c ≠ 'E'

theorem endsNumber_nil : EndsNumber [] := by
  simp [EndsNumber]

theorem endsNumber_cons {c : Char} (h : c = ',' ∨ c = '\n') (cs : List Char) :
    EndsNumber (c :: cs) := by
  rcases h with rfl | rfl <;> simp [EndsNumber]

theorem exists_toDigits_eq_cons (n : Nat) :
    ∃ c digits, Nat.toDigits 10 n = c :: digits ∧ c.isDigit = true := by
  have hne : Nat.toDigits 10 n ≠ [] := Nat.toDigits_ne_nil
  obtain ⟨c, digits, hdigits⟩ := List.exists_cons_of_ne_nil hne
  have hmem : c ∈ Nat.toDigits 10 n := hdigits ▸ List.mem_cons_self
  exact ⟨c, digits, hdigits, Nat.isDigit_of_mem_toDigits (by decide) (by decide) hmem⟩

theorem head?_toDigits_ne_zero {n : Nat} (h : 0 < n) : (Nat.toDigits 10 n).head? ≠ some '0' := by
  induction n using Nat.strongRecOn with
  | _ n ih =>
      by_cases hlt : n < 10
      · have hall : ∀ k < 10, 0 < k → k.digitChar ≠ '0' := by decide
        simpa [Nat.toDigits_of_lt_base hlt] using hall n hlt h
      · have hle : 10 ≤ n := Nat.le_of_not_lt hlt
        have hrest := ih (n / 10) (by omega) (by omega)
        obtain ⟨c, digits, hdigits, _⟩ := exists_toDigits_eq_cons (n / 10)
        rw [hdigits] at hrest
        rwa [Nat.toDigits_of_base_le (by decide) hle, hdigits]

theorem readDigits_append {digits : List Char} (hne : digits ≠ [])
    (hdigits : ∀ c ∈ digits, c.isDigit = true) (h : EndsNumber rest) :
    readDigits (digits ++ rest) = some (digits, rest) := by
  have hspan : (digits ++ rest).span Char.isDigit = (digits, rest) :=
    Text.span_append hdigits fun c hc => (h c hc).1
  cases digits with
  | nil => exact absurd rfl hne
  | cons c digits => rw [readDigits, hspan]

theorem readWhole_toDigits (n : Nat) (h : EndsNumber rest) :
    readWhole (Nat.toDigits 10 n ++ rest) = some (Nat.toDigits 10 n, rest) := by
  rcases Nat.eq_zero_or_pos n with rfl | hpos
  · rw [Nat.toDigits_zero]
    rfl
  · have hhead := head?_toDigits_ne_zero hpos
    obtain ⟨c, digits, hdigits, _⟩ := exists_toDigits_eq_cons n
    have hall : ∀ c ∈ Nat.toDigits 10 n, c.isDigit = true := fun c =>
      Nat.isDigit_of_mem_toDigits (by decide) (by decide)
    rw [readWhole, readDigits_append Nat.toDigits_ne_nil hall h]
    intro cs hcs
    rw [hdigits] at hcs hhead
    exact hhead (congrArg some (List.cons.inj hcs).1)

theorem readFraction_none (h : EndsNumber rest) : readFraction rest = some ([], rest) := by
  cases rest with
  | nil => rfl
  | cons c cs =>
      rw [readFraction]
      exact fun _ heq => (h c rfl).2.1 (List.cons.inj heq).1

theorem readExponent_none (h : EndsNumber rest) : readExponent rest = some ([], rest) := by
  cases rest with
  | nil => rfl
  | cons c cs =>
      unfold readExponent
      exact if_neg (not_or.2 (h c rfl).2.2)

theorem readNumber_count (n : Nat) (h : EndsNumber rest) :
    readNumber (Nat.toDigits 10 n ++ rest) = some (.ofNat n, rest) := by
  -- No sign is read; the match on it is decided by this fact from the context.
  have hsign : ∀ cs, Nat.toDigits 10 n ++ rest ≠ '-' :: cs := by
    obtain ⟨c, digits, hdigits, hc⟩ := exists_toDigits_eq_cons n
    intro cs hcs
    rw [hdigits] at hcs
    obtain rfl : c = '-' := (List.cons.inj hcs).1
    cases hc
  simp only [readNumber, readWhole_toDigits n h, readFraction_none h, readExponent_none h,
    Option.bind_eq_bind, Option.bind_some, List.nil_append, List.append_nil, ofNat,
    Nat.toString_eq_ofList_toDigits]
  rfl

end LayerLint.Json
