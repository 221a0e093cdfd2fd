import Mathlib.Logic.Basic

/-!
# Tables of marks

Reading and setting the entries of a table that holds a mark for each node.
-/

namespace LayerLint.Marks

variable {marked : Array Bool} {v : Nat}

@[simp]
theorem getD_true_iff {o : Option Bool} : o.getD true = true ↔ o ≠ some false := by
  cases o with
  | none => simp
  | some b => cases b <;> simp

@[simp]
theorem getD_false_iff {o : Option Bool} : o.getD false = true ↔ o = some true := by
  cases o <;> simp

@[simp]
theorem getElem?_set {α : Type} (table : Array α) {node : Nat} (h : node < table.size) (a : α)
    (v : Nat) : (table.setIfInBounds node a)[v]? = if v = node then some a else table[v]? := by
  rw [Array.getElem?_setIfInBounds]
  by_cases hv : v = node
  · simp [hv, h]
  · simp [hv, Ne.symm hv]

/-- A node of the table is either marked or not. -/
theorem eq_true_iff (hv : v < marked.size) :
    marked[v]? = some true ↔ marked[v]? ≠ some false := by
  rw [Array.getElem?_eq_getElem hv]
  simp

@[simp]
theorem replicate_ne_true (size v : Nat) : (Array.replicate size false)[v]? ≠ some true := by
  simp [Array.getElem?_replicate]

theorem eq_replicate_false {size : Nat} (hsize : marked.size = size)
    (hnone : ∀ v : Nat, marked[v]? ≠ some true) : marked = Array.replicate size false := by
  refine Array.ext (by simpa using hsize) fun v hv _ => ?_
  have hmark := hnone v
  rw [Array.getElem?_eq_getElem hv] at hmark
  simpa using hmark

/-! ## Setting many entries -/

variable {α : Type}

@[simp]
theorem size_foldl_set (a : α) (nodes : List Nat) (table : Array α) :
    (nodes.foldl (fun table v => table.setIfInBounds v a) table).size = table.size := by
  induction nodes generalizing table with
  | nil => rfl
  | cons node nodes ih => rw [List.foldl_cons, ih, Array.size_setIfInBounds]

theorem getElem?_foldl_set (a : α) (nodes : List Nat) (table : Array α) :
    (nodes.foldl (fun table v => table.setIfInBounds v a) table)[v]? =
      if v ∈ nodes ∧ v < table.size then some a else table[v]? := by
  induction nodes generalizing table with
  | nil => simp
  | cons node nodes ih =>
      rw [List.foldl_cons, ih, Array.size_setIfInBounds, Array.getElem?_setIfInBounds]
      by_cases hv : v = node
      · subst hv
        by_cases hlt : v < table.size <;> simp [hlt]
      · simp [hv, Ne.symm hv]

theorem foldl_set_eq_true (nodes : List Nat) (marked : Array Bool) :
    (nodes.foldl (fun marked v => marked.setIfInBounds v true) marked)[v]? = some true ↔
      marked[v]? = some true ∨ v ∈ nodes ∧ v < marked.size := by
  rw [getElem?_foldl_set]
  by_cases hv : v ∈ nodes ∧ v < marked.size <;> simp [hv]

/-! ## Tables that agree -/

/-- Two tables tell the same of the included nodes. -/
def AgreeOn (included : Nat → Bool) (table table' : Array α) : Prop :=
  ∀ v, included v = true → table'[v]? = table[v]?

variable {included : Nat → Bool} {table table' : Array α} {node : Nat}

theorem AgreeOn.set (h : AgreeOn included table table') (node : Nat) (a : α) :
    AgreeOn included (table.setIfInBounds node a) (table'.setIfInBounds node a) := by
  intro v hv
  rw [Array.getElem?_setIfInBounds, Array.getElem?_setIfInBounds]
  split
  · rename_i heq
    subst heq
    have hsize : table'.size ≤ node ↔ table.size ≤ node := by
      rw [← Array.getElem?_eq_none_iff, ← Array.getElem?_eq_none_iff, h node hv]
    simp only [← Nat.not_le, hsize]
  · exact h v hv

theorem AgreeOn.set_out (h : AgreeOn included table table') (hout : included node = false) (a : α) :
    AgreeOn included table (table'.setIfInBounds node a) := by
  intro v hv
  rw [Array.getElem?_setIfInBounds_ne, h v hv]
  rintro rfl
  rw [hv] at hout
  cases hout

end LayerLint.Marks
