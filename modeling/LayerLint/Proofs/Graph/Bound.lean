import Mathlib.Algebra.BigOperators.Group.List.Basic
import Mathlib.Algebra.GroupWithZero.Nat
import LayerLint.Proofs.Graph.Build

/-!
# Counting over a graph

The walks over a graph end because they use up what its nodes hold in store: one step for each node
and one for each of its dependencies.
-/

namespace LayerLint.Graph

variable {g : Graph}

theorem WellFormed.dependencies_eq (h : g.WellFormed) :
    g.dependencies.toList = g.nodes.map g.deps := by
  apply List.ext_getElem?
  intro v
  by_cases hv : v < g.size
  · have hlt : v < g.dependencies.size := h.size_dependencies ▸ hv
    simp [nodes, deps, hv, hlt]
  · have hge : ¬v < g.dependencies.size := h.size_dependencies ▸ hv
    simp [nodes, hv, hge]

theorem WellFormed.sum_store (h : g.WellFormed) :
    (g.nodes.map fun v => (g.deps v).length + 1).sum =
      g.size + g.dependencies.toList.flatten.length := by
  rw [h.dependencies_eq, List.length_flatten, List.map_map, List.sum_map_add]
  simp [nodes, Function.comp_def, Nat.add_comm]

/-- A sum over the nodes changes by what changes at one node. -/
theorem sum_nodes_update {f f' : Nat → Nat} {node : Nat} (hnode : node < g.size)
    (hrest : ∀ v < g.size, v ≠ node → f' v = f v) :
    (g.nodes.map f').sum + f node = (g.nodes.map f).sum + f' node := by
  have hmem : node ∈ g.nodes := List.mem_range.2 hnode
  have hsame : ∀ v ∈ g.nodes.erase node, f' v = f v := by
    intro v hv
    obtain ⟨hne, hv⟩ := (List.Nodup.mem_erase_iff List.nodup_range).1 hv
    exact hrest v (List.mem_range.1 hv) hne
  rw [← List.sum_map_erase f' hmem, ← List.sum_map_erase f hmem, List.map_congr_left hsame]
  omega

end LayerLint.Graph
