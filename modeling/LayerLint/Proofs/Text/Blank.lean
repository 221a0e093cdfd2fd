import Mathlib.Data.List.DropRight
import LayerLint.Text.Blank

/-!
# Trimming

A trimmed text is the text without blanks around it, and has none at its ends.
-/

namespace LayerLint.Text

variable {cs front back : List Char}

/-- No blank stands at either end. -/
def IsTrimmed (cs : List Char) : Prop :=
  (∀ c ∈ cs.head?, isBlank c = false) ∧ ∀ c ∈ cs.getLast?, isBlank c = false

theorem isBlankText_iff {s : String} : isBlankText s = true ↔ ∀ c ∈ s.toList, isBlank c = true :=
  List.all_eq_true

theorem isBlankText_eq_false_iff {s : String} :
    isBlankText s = false ↔ ∃ c ∈ s.toList, isBlank c = false := by
  simp [isBlankText]

theorem trimChars_eq (cs : List Char) :
    trimChars cs = (cs.dropWhile isBlank).rdropWhile isBlank :=
  rfl

/-! ## What is left -/

theorem trimChars_eq_nil_iff : trimChars cs = [] ↔ ∀ c ∈ cs, isBlank c = true := by
  rw [trimChars_eq, List.rdropWhile_eq_nil_iff, ← List.dropWhile_eq_nil_iff,
    List.dropWhile_idempotent, List.dropWhile_eq_nil_iff]

theorem isEmpty_trimChars (s : String) : (trimChars s.toList).isEmpty = isBlankText s := by
  rw [Bool.eq_iff_iff, List.isEmpty_iff, trimChars_eq_nil_iff, isBlankText_iff]

theorem toList_trim (s : String) : (trim s).toList = trimChars s.toList :=
  String.toList_ofList

theorem isTrimmed_trimChars (cs : List Char) : IsTrimmed (trimChars cs) := by
  rw [trimChars_eq]
  constructor
  · intro c hc
    -- The first character that is left is also the first one behind the blanks in front.
    obtain ⟨taken, htaken⟩ := List.rdropWhile_prefix isBlank (cs.dropWhile isBlank)
    have hhead := List.head?_dropWhile_not isBlank cs
    rwa [← htaken, List.head?_append, Option.mem_def.1 hc] at hhead
  · intro c hc
    obtain ⟨hne, rfl⟩ := List.mem_getLast?_eq_getLast hc
    simpa using List.rdropWhile_last_not isBlank _ hne

theorem exists_trimChars (cs : List Char) :
    ∃ front back, (∀ c ∈ front, isBlank c = true) ∧ (∀ c ∈ back, isBlank c = true) ∧
      cs = front ++ trimChars cs ++ back := by
  refine ⟨cs.takeWhile isBlank, (cs.dropWhile isBlank).rtakeWhile isBlank,
    fun c => List.mem_takeWhile_imp, fun c => List.mem_rtakeWhile_imp, ?_⟩
  rw [trimChars_eq, List.append_assoc, List.rdropWhile_append_rtakeWhile,
    List.takeWhile_append_dropWhile]

theorem exists_trim (s : String) :
    ∃ front back, isBlankText front = true ∧ isBlankText back = true ∧
      s = front ++ trim s ++ back := by
  obtain ⟨front, back, hfront, hback, hs⟩ := exists_trimChars s.toList
  refine ⟨String.ofList front, String.ofList back, ?_, ?_, ?_⟩
  · simpa [isBlankText_iff] using hfront
  · simpa [isBlankText_iff] using hback
  · rw [← String.toList_inj, hs]
    simp [toList_trim, ← hs]

/-! ## What is taken away -/

theorem dropWhile_isBlank_append (hfront : ∀ c ∈ front, isBlank c = true)
    (hcs : ∀ c ∈ cs.head?, isBlank c = false) : (front ++ cs).dropWhile isBlank = cs := by
  rw [List.dropWhile_append_of_pos hfront]
  cases cs with
  | nil => rfl
  | cons c cs => exact List.dropWhile_cons_of_neg (by simp [hcs c rfl])

theorem trimChars_append (hcs : IsTrimmed cs) (hne : cs ≠ [])
    (hfront : ∀ c ∈ front, isBlank c = true) (hback : ∀ c ∈ back, isBlank c = true) :
    trimChars (front ++ cs ++ back) = cs := by
  have hdrop : (front ++ cs ++ back).dropWhile isBlank = cs ++ back := by
    rw [List.append_assoc]
    exact dropWhile_isBlank_append hfront (by simpa [List.head?_append_of_ne_nil _ hne] using hcs.1)
  rw [trimChars, hdrop, List.reverse_append, dropWhile_isBlank_append, List.reverse_reverse]
  · simpa using hback
  · simpa using hcs.2

/-- A part that starts with no blank does not stand across blanks in front of a text. -/
theorem infix_blanks_append_iff {c : Char} {part : List Char} (hc : isBlank c = false)
    (hfront : ∀ c ∈ front, isBlank c = true) : c :: part <:+: front ++ cs ↔ c :: part <:+: cs := by
  induction front with
  | nil => exact Iff.rfl
  | cons blank front ih =>
      obtain ⟨hblank, hfront⟩ := List.forall_mem_cons.1 hfront
      rw [List.cons_append, List.infix_cons_iff, ih hfront, or_iff_right]
      rintro ⟨behind, hstart⟩
      obtain ⟨rfl, _⟩ := List.cons.inj hstart
      exact absurd hblank (by simp [hc])

end LayerLint.Text
