import Mathlib.Data.List.TakeDrop
import LayerLint.Text.Split

/-!
# Cutting and joining

Cutting a text at a separator and joining pieces with it undo each other.
-/

namespace LayerLint.Text

variable {sep : Char} {cs piece : List Char} {pieces : List (List Char)}

theorem consHead_eq (c : Char) (h : pieces ≠ []) :
    consHead c pieces = pieces.modifyHead (c :: ·) := by
  cases pieces with
  | nil => exact absurd rfl h
  | cons piece pieces => rfl

theorem splitOn_eq (sep : Char) (cs : List Char) : splitOn sep cs = cs.splitOn sep := by
  induction cs with
  | nil => rfl
  | cons c cs ih =>
      rw [splitOn, ih, consHead_eq c (List.splitOn_ne_nil sep cs), List.splitOn_eq_splitOnP,
        List.splitOn_eq_splitOnP, List.splitOnP_cons_eq_if_modifyHead]
      simp only [beq_iff_eq]

theorem joinWith_eq (sep : List Char) (pieces : List (List Char)) :
    joinWith sep pieces = sep.intercalate pieces := by
  induction pieces with
  | nil => rfl
  | cons piece pieces ih =>
      cases pieces with
      | nil => exact List.intercalate_singleton.symm
      | cons next pieces =>
          rw [joinWith, ih, List.intercalate_cons_cons]
          exact List.cons_ne_nil next pieces

theorem joinWith_cons (sep piece : List Char) (h : pieces ≠ []) :
    joinWith sep (piece :: pieces) = piece ++ sep ++ joinWith sep pieces := by
  rw [joinWith]
  exact h

theorem joinWith_consHead (sep : List Char) (c : Char) (h : pieces ≠ []) :
    joinWith sep (consHead c pieces) = c :: joinWith sep pieces := by
  cases pieces with
  | nil => exact absurd rfl h
  | cons piece pieces => cases pieces <;> rfl

@[simp]
theorem splitOn_ne_nil (sep : Char) (cs : List Char) : splitOn sep cs ≠ [] := by
  rw [splitOn_eq]
  exact List.splitOn_ne_nil sep cs

theorem splitOn_of_notMem (h : sep ∉ cs) : splitOn sep cs = [cs] := by
  rw [splitOn_eq, List.splitOn_eq_singleton h]

theorem splitOn_append_cons (sep : Char) (cs rest : List Char) :
    splitOn sep (cs ++ sep :: rest) = splitOn sep cs ++ splitOn sep rest := by
  simp only [splitOn_eq, List.splitOn_eq_splitOnP]
  exact List.splitOnP_append_cons cs rest (beq_self_eq_true sep)

theorem notMem_of_mem_splitOn (h : piece ∈ splitOn sep cs) : sep ∉ piece := by
  induction cs generalizing piece with
  | nil =>
      obtain rfl := List.mem_singleton.1 h
      exact List.not_mem_nil
  | cons c cs ih =>
      rw [splitOn] at h
      split at h
      · rcases List.mem_cons.1 h with rfl | h
        · exact List.not_mem_nil
        · exact ih h
      · rename_i hc
        obtain ⟨first, others, hpieces⟩ := List.exists_cons_of_ne_nil (splitOn_ne_nil sep cs)
        rw [hpieces] at h ih
        rcases List.mem_cons.1 h with rfl | h
        · rw [List.mem_cons, not_or]
          exact ⟨Ne.symm hc, ih List.mem_cons_self⟩
        · exact ih (List.mem_cons_of_mem _ h)

@[simp]
theorem joinWith_splitOn (sep : Char) (cs : List Char) : joinWith [sep] (splitOn sep cs) = cs := by
  rw [splitOn_eq, joinWith_eq, List.intercalate_splitOn]

theorem eq_of_splitOn_singleton (h : splitOn sep cs = [piece]) : piece = cs ∧ sep ∉ cs := by
  have hpiece : piece = cs := by rw [← joinWith_splitOn sep cs, h, joinWith]
  exact ⟨hpiece, hpiece ▸ notMem_of_mem_splitOn (h ▸ List.mem_singleton_self piece)⟩

theorem splitOn_joinWith (hne : pieces ≠ []) (h : ∀ piece ∈ pieces, sep ∉ piece) :
    splitOn sep (joinWith [sep] pieces) = pieces := by
  rw [splitOn_eq, joinWith_eq, List.splitOn_intercalate sep h hne]

theorem ne_of_mem_reverse {c : Char} (h : sep ∉ cs) (hc : c ∈ cs.reverse) :
    decide (c ≠ sep) = true := by
  refine decide_eq_true fun hsep => h ?_
  rw [← hsep]
  exact List.mem_reverse.1 hc

/-- A text without separators is its own last piece; any other ends with one behind a separator. -/
theorem notMem_or_exists_last (sep : Char) (cs : List Char) :
    sep ∉ cs ∨ ∃ front last, cs = front ++ sep :: last ∧ sep ∉ last := by
  by_cases h : sep ∈ cs
  · obtain ⟨back, front, hcs, hback⟩ := List.eq_append_cons_of_mem (List.mem_reverse.2 h)
    refine Or.inr ⟨front.reverse, back.reverse, ?_, by simpa using hback⟩
    rw [← List.reverse_reverse cs, hcs]
    simp
  · exact Or.inl h

/-- Text without separators goes to the last piece. -/
theorem exists_splitOn_append (cs : List Char) (h : sep ∉ piece) :
    ∃ front last, splitOn sep cs = front ++ [last] ∧
      splitOn sep (cs ++ piece) = front ++ [last ++ piece] := by
  rcases notMem_or_exists_last sep cs with hnone | ⟨front, last, rfl, hlast⟩
  · refine ⟨[], cs, splitOn_of_notMem hnone, splitOn_of_notMem ?_⟩
    simpa using ⟨hnone, h⟩
  · refine ⟨splitOn sep front, last, ?_, ?_⟩
    · rw [splitOn_append_cons, splitOn_of_notMem hlast]
    · have hpiece : sep ∉ last ++ piece := by simpa using ⟨hlast, h⟩
      rw [List.append_assoc, List.cons_append, splitOn_append_cons, splitOn_of_notMem hpiece]

theorem joinWith_append_last (sep : List Char) (front : List (List Char)) (last tail : List Char) :
    joinWith sep (front ++ [last ++ tail]) = joinWith sep (front ++ [last]) ++ tail := by
  induction front with
  | nil => rfl
  | cons piece front ih =>
      rw [List.cons_append, List.cons_append, joinWith_cons sep piece (by simp),
        joinWith_cons sep piece (by simp), ih, List.append_assoc _ _ tail]

theorem prefix_joinWith (sep : List Char) (front back : List (List Char)) :
    joinWith sep front <+: joinWith sep (front ++ back) := by
  induction front with
  | nil => exact List.nil_prefix
  | cons piece front ih =>
      cases front with
      | nil =>
          cases back with
          | nil => exact List.prefix_refl _
          | cons next back =>
              rw [List.singleton_append, joinWith_cons sep piece (List.cons_ne_nil _ _),
                List.append_assoc]
              exact List.prefix_append _ _
      | cons next front =>
          rw [List.cons_append, joinWith_cons sep piece (List.cons_ne_nil _ _),
            joinWith_cons sep piece (by simp)]
          exact (List.prefix_append_right_inj _).2 ih

/-! ## Searching -/

/-- A span ends where a character fails its test. -/
theorem span_append {p : Char → Bool} {rest : List Char} (hcs : ∀ c ∈ cs, p c = true)
    (hrest : ∀ c ∈ rest.head?, p c = false) : (cs ++ rest).span p = (cs, rest) := by
  rw [List.span_eq_takeWhile_dropWhile, List.takeWhile_append_of_pos hcs,
    List.dropWhile_append_of_pos hcs]
  cases rest with
  | nil => simp
  | cons c rest => simp [hrest c rfl]

@[simp]
theorem occursIn_iff (part cs : List Char) : occursIn part cs = true ↔ part <:+: cs := by
  induction cs with
  | nil => simp [occursIn]
  | cons c cs ih =>
      rw [occursIn, Bool.or_eq_true, List.isPrefixOf_iff_prefix, ih, List.infix_cons_iff]

@[simp]
theorem contains_iff (s part : String) : contains s part = true ↔ part.toList <:+: s.toList :=
  occursIn_iff _ _

@[simp]
theorem startsWith_iff (s start : String) :
    startsWith s start = true ↔ start.toList <+: s.toList :=
  List.isPrefixOf_iff_prefix

@[simp]
theorem endsWith_iff (s ending : String) :
    endsWith s ending = true ↔ ending.toList <:+ s.toList :=
  List.isSuffixOf_iff_suffix

end LayerLint.Text
