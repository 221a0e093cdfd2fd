import Mathlib.Algebra.GroupWithZero.Nat
import Mathlib.Algebra.Order.BigOperators.Group.List
import Mathlib.Algebra.Order.Group.Nat
import LayerLint.Proofs.DepthWalk.Move
import LayerLint.Proofs.Graph.Bound

/-!
# The end of the walk for depths

Every move takes one off what is left to do, so a walk that starts from any table is over within its
bound of steps, with no node left on the path.
-/

namespace LayerLint.DepthTable

variable {g : Graph} {w w' : Walk} {table : DepthTable}

/-- The steps that a node still takes when it is neither finished nor on the path. -/
def cost (g : Graph) (table : DepthTable) (node : Nat) : Nat :=
  if table.depth? node = none ∧ table.onPath[node]? = some false then (g.deps node).length + 1
  else 0

/-- The steps that are left. -/
def Walk.load (g : Graph) (w : Walk) : Nat :=
  (w.frames.map fun f => f.pending.length + 1).sum + (g.nodes.map (cost g w.table)).sum

theorem load_start_le (h : g.WellFormed) (table : DepthTable) :
    Walk.load g ⟨table, []⟩ ≤ stepBound g := by
  have hcost : ∀ v ∈ g.nodes, cost g table v ≤ (g.deps v).length + 1 := by
    intro v _
    unfold cost
    split <;> omega
  have hsum := List.sum_le_sum hcost
  rw [h.sum_store] at hsum
  simpa [Walk.load, stepBound] using hsum

/-- Entering a node moves its steps from the nodes ahead to the frames. -/
theorem load_enter (h : Aligned g w) {node : Nat} (hunknown : w.table.depth? node = none)
    (hoff : w.table.onPath[node]? = some false) : (w.enter g node).load g = w.load g := by
  have hlt : node < w.table.onPath.size := (Array.getElem?_eq_some_iff.1 hoff).1
  have honPath : ∀ v : Nat,
      (w.enter g node).table.onPath[v]? = if v = node then some true else w.table.onPath[v]? :=
    Marks.getElem?_set w.table.onPath hlt true
  have hdepth : (w.enter g node).table.depth? = w.table.depth? := rfl
  have hbefore : cost g w.table node = (g.deps node).length + 1 := if_pos ⟨hunknown, hoff⟩
  have hafter : cost g (w.enter g node).table node = 0 := by
    simp [cost, honPath]
  have hcosts : (g.nodes.map (cost g (w.enter g node).table)).sum + cost g w.table node =
      (g.nodes.map (cost g w.table)).sum + cost g (w.enter g node).table node :=
    Graph.sum_nodes_update (h.size_onPath ▸ hlt) fun v _ hne => by
      simp [cost, honPath, hdepth, hne]
  have hframes : ((w.enter g node).frames.map fun f => f.pending.length + 1).sum =
      (g.deps node).length + 1 + (w.frames.map fun f => f.pending.length + 1).sum := by
    simp [Walk.enter]
  rw [hbefore, hafter] at hcosts
  rw [Walk.load, Walk.load, hframes]
  omega

theorem load_finish (h : Aligned g w) {node deepest : Nat} {outer : List Frame}
    (hframes : w.frames = ⟨node, [], deepest⟩ :: outer) (depth : Nat) :
    (w.finish node depth outer).load g + 1 = w.load g := by
  have hmem : node ∈ w.stack := stack_finish hframes depth ▸ List.mem_cons_self
  have hlt := h.lt_of_mem hmem
  have honPath : ∀ v : Nat, (w.finish node depth outer).table.onPath[v]? =
      if v = node then some false else w.table.onPath[v]? :=
    Marks.getElem?_set w.table.onPath (h.size_onPath ▸ hlt) false
  have hcost : cost g (w.finish node depth outer).table = cost g w.table := by
    funext v
    rw [cost, cost, depth?_finish (h.size_known ▸ hlt), honPath]
    by_cases hv : v = node
    · subst hv
      simp [(h.onPath_iff v).2 hmem]
    · simp [hv]
  have hpending : ((Walk.learn depth outer).map fun f => f.pending.length + 1) =
      outer.map fun f => f.pending.length + 1 := by
    cases outer <;> rfl
  rw [Walk.load, Walk.load, hcost, hframes, Walk.finish, hpending]
  simp only [List.map_cons, List.sum_cons, List.length_nil]
  omega

theorem load_move (h : Aligned g w) (hmove : Move g w w') : w'.load g + 1 = w.load g := by
  cases hmove with
  | finish hframes => exact load_finish h hframes _
  | learn hframes _ =>
      simp only [Walk.load, hframes, List.map_cons, List.sum_cons, List.length_cons]
      omega
  | pass hframes _ _ =>
      simp only [Walk.load, hframes, List.map_cons, List.sum_cons, List.length_cons]
      omega
  | @enter node target pending deepest outer hframes hunknown hoff =>
      rw [load_enter (h.advance hframes deepest) hunknown hoff]
      simp only [Walk.load, hframes, List.map_cons, List.sum_cons, List.length_cons]
      omega

theorem run_frames_eq_nil (h : Aligned g w) {steps : Nat} (hload : w.load g ≤ steps) :
    (w.run g steps).frames = [] := by
  induction steps generalizing w with
  | zero =>
      rw [Nat.le_zero, Walk.load] at hload
      cases hframes : w.frames with
      | nil => exact hframes
      | cons f outer => simp [hframes] at hload
  | succ steps ih =>
      rw [Walk.run]
      split
      · rename_i hnil
        exact List.isEmpty_iff.1 hnil
      · rename_i hne
        have hmove : Move g w (w.step g) := step_move (by simpa using hne)
        have hless := load_move h hmove
        exact ih (h.move hmove) (by omega)

end LayerLint.DepthTable
