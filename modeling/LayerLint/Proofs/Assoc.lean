import Mathlib.Logic.Basic
import LayerLint.Assoc

/-!
# Reading association lists

What is read under a key after a value was set, and which keys there are.
-/

namespace LayerLint.Assoc

variable {α : Type} {key other : String} {value : α} {entries : Assoc α}

@[simp]
theorem get?_set (key other : String) (value : α) (entries : Assoc α) :
    (entries.set key value).get? other =
      if key = other then some value else entries.get? other := by
  induction entries with
  | nil => simp [set, get?]
  | cons entry entries ih =>
      obtain ⟨k, v⟩ := entry
      by_cases hk : k = key
      · subst hk
        by_cases ho : k = other <;> simp [set, get?, ho]
      · by_cases ho : k = other
        · subst ho
          simp [set, get?, hk, Ne.symm hk]
        · simp [set, get?, hk, ho, ih]

@[simp]
theorem get?_eq_none_iff : entries.get? key = none ↔ key ∉ entries.keys := by
  induction entries with
  | nil => simp [get?, keys]
  | cons entry entries ih =>
      obtain ⟨k, value⟩ := entry
      by_cases hk : k = key
      · simp [get?, keys, hk]
      · simp only [get?, if_neg hk, ih]
        simp [keys, Ne.symm hk]

theorem mem_of_get? (h : entries.get? key = some value) : (key, value) ∈ entries := by
  induction entries with
  | nil => cases h
  | cons entry entries ih =>
      obtain ⟨k, v⟩ := entry
      rw [get?] at h
      split at h
      · rename_i hk
        rw [hk, Option.some.inj h]
        exact List.mem_cons_self
      · exact List.mem_cons_of_mem _ (ih h)

theorem mem_keys_set (h : other ∈ (entries.set key value).keys) :
    other = key ∨ other ∈ entries.keys := by
  induction entries with
  | nil => simpa [set, keys] using h
  | cons entry entries ih =>
      obtain ⟨k, v⟩ := entry
      by_cases hk : k = key
      · simp only [set, hk, if_true, keys, List.map_cons, List.mem_cons] at h ⊢
        exact Or.inr h
      · simp only [set, hk, if_false, keys, List.map_cons, List.mem_cons] at h ⊢
        rcases h with rfl | h
        · exact Or.inr (Or.inl rfl)
        · exact (ih h).imp_right Or.inr

end LayerLint.Assoc
