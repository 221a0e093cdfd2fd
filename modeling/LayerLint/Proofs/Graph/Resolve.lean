import Mathlib.Tactic.Tauto
import LayerLint.Graph.Resolve

/-!
# What imports stand for

An import stands for a known file or for none. One more known file can take an import over for
itself, but never turn it to another file. The order of the known files decides only where an import
is the end of several paths.
-/

namespace LayerLint

variable {known : List String} {raw source : String}

theorem resolveImport_mem {path : String} (h : resolveImport known raw source = some path) :
    path ∈ known := by
  unfold resolveImport at h
  split at h
  · cases h
  · split at h
    · obtain rfl := Option.some.inj h
      assumption
    · split at h
      · simpa using List.find?_some h
      · exact List.mem_of_find?_eq_some h

/-! ## One more file -/

/-- A search that accepts one more item finds that item or what it found without. -/
theorem find?_accept_more {α : Type} {p q : α → Bool} {a : α}
    (h : ∀ b, q b = true ↔ p b = true ∨ b = a) (l : List α) :
    l.find? q = l.find? p ∨ l.find? q = some a := by
  induction l with
  | nil => exact Or.inl rfl
  | cons b l ih =>
      by_cases hp : p b = true
      · rw [List.find?_cons_of_pos hp, List.find?_cons_of_pos ((h b).2 (Or.inl hp))]
        exact Or.inl rfl
      · rw [List.find?_cons_of_neg hp]
        by_cases hb : b = a
        · rw [List.find?_cons_of_pos ((h b).2 (Or.inr hb)), hb]
          exact Or.inr rfl
        · rw [List.find?_cons_of_neg fun hq => ((h b).1 hq).elim hp hb]
          exact ih

theorem find?_insert {α : Type} (p : α → Bool) (before behind : List α) (a : α) :
    (before ++ a :: behind).find? p = (before ++ behind).find? p ∨
      (before ++ a :: behind).find? p = some a := by
  rw [List.find?_append, List.find?_append]
  cases before.find? p with
  | some b => exact Or.inl rfl
  | none =>
      by_cases ha : p a = true
      · exact Or.inr (List.find?_cons_of_pos ha)
      · exact Or.inl (List.find?_cons_of_neg ha)

/-- A file put among the known ones takes an import over or leaves it as it was. -/
theorem resolveImport_insert (before behind : List String) (file raw source : String) :
    resolveImport (before ++ file :: behind) raw source =
        resolveImport (before ++ behind) raw source ∨
      resolveImport (before ++ file :: behind) raw source = some file := by
  have hmem : ∀ path, path ∈ before ++ file :: behind ↔ path ∈ before ++ behind ∨ path = file := by
    intro path
    simp only [List.mem_append, List.mem_cons]
    tauto
  unfold resolveImport
  split
  · exact Or.inl rfl
  · by_cases hraw : raw ∈ before ++ behind
    · rw [if_pos ((hmem raw).2 (Or.inl hraw)), if_pos hraw]
      exact Or.inl rfl
    · by_cases hfile : raw = file
      · rw [if_pos ((hmem raw).2 (Or.inr hfile)), hfile]
        exact Or.inr rfl
      · rw [if_neg fun h => ((hmem raw).1 h).elim hraw hfile, if_neg hraw]
        split
        · exact find?_accept_more (fun path => by simpa using hmem path) _
        · exact find?_insert _ before behind file

/-! ## The order of the files -/

/-- At most one known file is one that an import can stand for by its ending. -/
def Unambiguous (known : List String) (raw : String) : Prop :=
  Text.isBlankText raw = false → raw.toList.head? ≠ some '.' → raw ∉ known →
    ∀ p ∈ known, ∀ q ∈ known, Text.endsWith p raw = true → Text.endsWith q raw = true → p = q

instance : Decidable (Unambiguous known raw) :=
  inferInstanceAs (Decidable (_ → _ → _ → ∀ _ ∈ _, ∀ _ ∈ _, _ → _ → _))

/-- What is found does not depend on the order if no two items would do. -/
theorem find?_congr_of_unique {α : Type} {p : α → Bool} {l l' : List α}
    (hmem : ∀ a, a ∈ l ↔ a ∈ l')
    (hunique : ∀ a ∈ l, ∀ b ∈ l, p a = true → p b = true → a = b) : l.find? p = l'.find? p := by
  cases h : l.find? p with
  | none =>
      refine (List.find?_eq_none.2 fun a ha => ?_).symm
      exact List.find?_eq_none.1 h a ((hmem a).2 ha)
  | some a =>
      have ha := List.mem_of_find?_eq_some h
      cases h' : l'.find? p with
      | none => exact absurd (List.find?_some h) (List.find?_eq_none.1 h' a ((hmem a).1 ha))
      | some b =>
          have hb := (hmem b).2 (List.mem_of_find?_eq_some h')
          rw [hunique a ha b hb (List.find?_some h) (List.find?_some h')]

theorem resolveImport_congr {known' : List String} (hmem : ∀ path, path ∈ known ↔ path ∈ known')
    (hraw : Unambiguous known raw) (source : String) :
    resolveImport known raw source = resolveImport known' raw source := by
  unfold resolveImport
  by_cases hblank : Text.isBlankText raw = true
  · rw [if_pos hblank, if_pos hblank]
  · rw [if_neg hblank, if_neg hblank]
    by_cases hknown : raw ∈ known
    · rw [if_pos hknown, if_pos ((hmem raw).1 hknown)]
    · rw [if_neg hknown, if_neg fun h => hknown ((hmem raw).2 h)]
      split
      · simp only [hmem]
      · rename_i hpoint
        exact find?_congr_of_unique hmem (hraw (by simpa using hblank) hpoint hknown)

end LayerLint
