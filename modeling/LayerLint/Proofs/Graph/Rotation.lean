import Mathlib.Data.List.Rotate
import LayerLint.Graph.Cycle

/-!
# Rotated cycles

Two cycles are the same but for their start if the nodes of one are those of the other, rotated. The
check for it aligns the lists once, at the first place where the second holds the first node of the
first. Where no node comes twice there is no other place, so the check misses no rotation.
-/

namespace LayerLint.Cycle

variable {c c' : Cycle} {start offset : Nat} {rest : List Nat}

/-! ## Edges -/

theorem edges_eq_zip_rotate (c : Cycle) : c.edges = c.nodes.zip (c.nodes.rotate 1) := by
  cases hnodes : c.nodes with
  | nil => simp [edges, hnodes]
  | cons first rest => simp [edges, hnodes]

theorem edges_isRotated (h : c.nodes.IsRotated c'.nodes) : c.edges.IsRotated c'.edges := by
  obtain ⟨k, hk⟩ := h
  refine ⟨k, ?_⟩
  have hlength : c.nodes.length = (c.nodes.rotate 1).length := (List.length_rotate _ _).symm
  rw [edges_eq_zip_rotate, edges_eq_zip_rotate, ← hk, List.rotate_rotate, Nat.add_comm k 1,
    ← List.rotate_rotate]
  exact List.zipWith_rotate_distrib Prod.mk _ _ k hlength

/-! ## The check -/

theorem isRotationOf_nil (hnodes : c.nodes = []) : c.isRotationOf c' = true ↔ c'.nodes = [] := by
  rw [isRotationOf, hnodes, List.length_nil, Bool.and_true, beq_iff_eq, eq_comm,
    List.length_eq_zero_iff]

/-- The lists are compared at one place only. -/
theorem isRotationOf_cons (hnodes : c.nodes = start :: rest) :
    c.isRotationOf c' = true ↔
      ∃ offset, c'.nodes.findIdx? (· == start) = some offset ∧
        c.nodes = c'.nodes.rotate offset := by
  rw [isRotationOf, Bool.and_eq_true, beq_iff_eq]
  simp only [hnodes]
  cases hoffset : c'.nodes.findIdx? (· == start) with
  | none => simp
  | some offset =>
      obtain ⟨hlt, _⟩ := List.findIdx?_eq_some_iff_getElem.1 hoffset
      have hrotate := List.rotate_eq_drop_append_take (Nat.le_of_lt hlt)
      simp only [beq_iff_eq, Option.some.injEq, exists_eq_left', hrotate, and_iff_right_iff_imp]
      intro heq
      rw [heq, ← hrotate, List.length_rotate]

/-- Node by node, each stands the same number of places further in the other list, counted around
its end. -/
theorem isRotationOf_cons_iff_getElem? (hnodes : c.nodes = start :: rest) :
    c.isRotationOf c' = true ↔ c.nodes.length = c'.nodes.length ∧
      ∃ offset, c'.nodes.findIdx? (· == start) = some offset ∧
        ∀ i < c.nodes.length, c.nodes[i]? = c'.nodes[(i + offset) % c.nodes.length]? := by
  rw [isRotationOf_cons hnodes]
  constructor
  · rintro ⟨offset, hoffset, hrotate⟩
    have hlength : c.nodes.length = c'.nodes.length := by rw [hrotate, List.length_rotate]
    refine ⟨hlength, offset, hoffset, fun i hi => ?_⟩
    rw [hlength] at hi ⊢
    rw [hrotate, List.getElem?_rotate hi]
  · rintro ⟨hlength, offset, hoffset, hsame⟩
    refine ⟨offset, hoffset, List.ext_getElem? fun i => ?_⟩
    rw [hlength] at hsame
    by_cases hi : i < c'.nodes.length
    · rw [hsame i hi, List.getElem?_rotate hi]
    · have hrotated : (c'.nodes.rotate offset).length ≤ i := by
        rw [List.length_rotate]
        omega
      rw [List.getElem?_eq_none (by omega), List.getElem?_eq_none hrotated]

theorem isRotated_of_isRotationOf (h : c.isRotationOf c' = true) :
    c'.nodes.IsRotated c.nodes := by
  cases hnodes : c.nodes with
  | nil => rw [(isRotationOf_nil hnodes).1 h]
  | cons start rest =>
      obtain ⟨offset, _, hrotate⟩ := (isRotationOf_cons hnodes).1 h
      exact ⟨offset, by rw [← hrotate, hnodes]⟩

/-- The node that a rotation starts with stands at one place only. -/
theorem findIdx?_of_rotate (hnodup : c'.nodes.Nodup) (hoffset : offset < c'.nodes.length)
    (hrotate : c'.nodes.rotate offset = start :: rest) :
    c'.nodes.findIdx? (· == start) = some offset := by
  have hstart : c'.nodes[offset]? = some start := by
    rw [← List.head?_rotate hoffset, hrotate, List.head?_cons]
  obtain ⟨_, hstart⟩ := List.getElem?_eq_some_iff.1 hstart
  refine List.findIdx?_eq_some_iff_getElem.2 ⟨hoffset, by simp [hstart], ?_⟩
  intro earlier hlt heq
  rw [beq_iff_eq, ← hstart] at heq
  exact Nat.ne_of_lt hlt ((hnodup.getElem_inj_iff).1 heq)

theorem isRotationOf_of_isRotated (hnodup : c'.nodes.Nodup) (h : c'.nodes.IsRotated c.nodes) :
    c.isRotationOf c' = true := by
  obtain ⟨k, hk⟩ := h
  cases hnodes : c.nodes with
  | nil =>
      rw [hnodes, List.rotate_eq_nil_iff] at hk
      exact (isRotationOf_nil hnodes).2 hk
  | cons start rest =>
      rw [← List.rotate_mod] at hk
      have hne : c'.nodes ≠ [] := by
        intro hnil
        simp [hnil, hnodes] at hk
      have hlt : k % c'.nodes.length < c'.nodes.length :=
        Nat.mod_lt _ (List.length_pos_iff.2 hne)
      exact (isRotationOf_cons hnodes).2
        ⟨_, findIdx?_of_rotate hnodup hlt (hk.trans hnodes), hk.symm⟩

theorem isRotationOf_iff_isRotated (hnodup : c'.nodes.Nodup) :
    c.isRotationOf c' = true ↔ c'.nodes.IsRotated c.nodes :=
  ⟨isRotated_of_isRotationOf, isRotationOf_of_isRotated hnodup⟩

theorem isRotated_iff_exists_rotate :
    c'.nodes.IsRotated c.nodes ↔ ∃ k, c.nodes = c'.nodes.rotate k :=
  exists_congr fun _ => eq_comm

/-- What the check accepts is a rotation. Among cycles in which no node comes twice it accepts every
rotation, so there it tells whether two cycles are the same. -/
theorem isRotationOf_decides_rotation :
    (∀ c c' : Cycle, c.isRotationOf c' = true → ∃ k, c.nodes = c'.nodes.rotate k) ∧
    (∀ c c' : Cycle, c.nodes.Nodup → c'.nodes.Nodup →
      (c.isRotationOf c' = true ↔ ∃ k, c.nodes = c'.nodes.rotate k)) ∧
    Equivalence fun c c' : { c : Cycle // c.nodes.Nodup } => c.1.isRotationOf c'.1 = true := by
  refine ⟨?_, ?_, ?_, ?_, ?_⟩
  · intro c c' h
    exact isRotated_iff_exists_rotate.1 (isRotated_of_isRotationOf h)
  · intro c c' _ hnodup
    exact (isRotationOf_iff_isRotated hnodup).trans isRotated_iff_exists_rotate
  · rintro ⟨c, hnodup⟩
    exact isRotationOf_of_isRotated hnodup (.refl c.nodes)
  · rintro ⟨c, hnodup⟩ ⟨c', _⟩ h
    exact isRotationOf_of_isRotated hnodup (isRotated_of_isRotationOf h).symm
  · rintro ⟨c, _⟩ ⟨c', _⟩ ⟨c'', hnodup⟩ h h'
    exact isRotationOf_of_isRotated hnodup
      ((isRotated_of_isRotationOf h').trans (isRotated_of_isRotationOf h))

/-- A triangle is the same from another start, and not the same the other way round. -/
theorem isRotationOf_decides_rotation_triangle :
    (∃ k, [0, 1, 2] = [1, 2, 0].rotate k) ∧ ¬∃ k, [0, 1, 2] = [0, 2, 1].rotate k := by
  obtain ⟨hsound, hdecides, _⟩ := isRotationOf_decides_rotation
  refine ⟨hsound ⟨[0, 1, 2], []⟩ ⟨[1, 2, 0], []⟩ (by decide), ?_⟩
  rw [← hdecides ⟨[0, 1, 2], []⟩ ⟨[0, 2, 1], []⟩ (by decide) (by decide)]
  decide

/-- Where a node comes twice, the check can miss a rotation: it aligns at the first place only. -/
example : isRotationOf ⟨[1, 1, 2], []⟩ ⟨[1, 2, 1], []⟩ = false ∧
    [1, 1, 2] = [1, 2, 1].rotate 2 := by
  decide

end LayerLint.Cycle
