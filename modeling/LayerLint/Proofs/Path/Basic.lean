import Mathlib.Data.List.TakeWhile
import LayerLint.Path
import LayerLint.Proofs.Text.Split

/-!
# Slashes and base names
-/

namespace LayerLint.Path

/-! ## Slashes -/

theorem slashed_eq_self {path : String} (h : '\\' ∉ path.toList) : slashed path = path := by
  have hsame : path.toList.map (fun c => if c = '\\' then '/' else c) = path.toList := by
    rw [List.map_congr_left (g := id), List.map_id]
    intro c hc
    exact if_neg fun heq : c = '\\' => h (heq ▸ hc)
  rw [slashed, hsame, String.ofList_toList]

@[simp]
theorem backslash_notMem_slashed (path : String) : '\\' ∉ (slashed path).toList := by
  rw [slashed, String.toList_ofList, List.mem_map]
  rintro ⟨c, _, hc⟩
  split at hc
  · cases hc
  · contradiction

@[simp]
theorem slashed_slashed (path : String) : slashed (slashed path) = slashed path :=
  slashed_eq_self (backslash_notMem_slashed path)

/-! ## Base names -/

@[simp]
theorem slashless_baseName (path : String) : '/' ∉ (baseName path).toList := by
  rw [baseName, String.toList_ofList, List.mem_reverse]
  intro h
  simpa using List.mem_takeWhile_imp h

theorem baseName_eq_self {path : String} (h : '/' ∉ path.toList) : baseName path = path := by
  have hall : path.toList.reverse.takeWhile (· ≠ '/') = path.toList.reverse :=
    List.takeWhile_eq_self_iff.2 fun _ => Text.ne_of_mem_reverse h
  rw [baseName, hall, List.reverse_reverse, String.ofList_toList]

end LayerLint.Path
