import Mathlib.Algebra.GroupWithZero.Nat
import LayerLint.Proofs.CycleWalk.Move
import LayerLint.Proofs.Graph.Bound

/-!
# The end of the walk

Every move takes one off what is left to do, so the walk is over within its bound of steps. A walk
that stops at the first cycle finds what the full walk finds first.
-/

namespace LayerLint.CycleWalk

variable {g : Graph} {included : Nat → Bool} {s s' : State} {onlyFirst : Bool}

/-! ## What is left to do -/

/-- The steps that a node still takes when it is not entered yet: one to leave it, and one for each
of its dependencies. -/
def cost (g : Graph) (visited : Array Bool) (node : Nat) : Nat :=
  if visited[node]? = some false then (g.deps node).length + 1 else 0

/-- The steps that are left at most. -/
def State.load (g : Graph) (s : State) : Nat :=
  s.roots.length + (s.frames.map fun f => f.pending.length + 1).sum +
    (g.nodes.map (cost g s.visited)).sum

theorem load_initial (h : g.WellFormed) : (State.initial g).load g = stepBound g := by
  have hcost : ∀ v ∈ g.nodes,
      cost g (State.initial g).visited v = (g.deps v).length + 1 := by
    intro v hv
    have hlt : v < g.size := by simpa [Graph.nodes] using hv
    simp [cost, State.initial, hlt]
  rw [State.load, stepBound, List.map_congr_left hcost, h.sum_store]
  simp [State.initial, Graph.nodes]
  omega

/-- Entering a node moves its steps from the nodes ahead to the frames. -/
theorem load_enter (h : Aligned g included s) {node : Nat}
    (hnew : s.visited[node]? = some false) : (s.enter g node).load g = s.load g := by
  have hlt : node < g.size := h.size_visited ▸ (Array.getElem?_eq_some_iff.1 hnew).1
  have hvisited : ∀ v, (s.enter g node).visited[v]? = _ := visited_enter hnew
  have hbefore : cost g s.visited node = (g.deps node).length + 1 := if_pos hnew
  have hafter : cost g (s.enter g node).visited node = 0 := by
    simp [cost, hvisited]
  have hcosts : (g.nodes.map (cost g (s.enter g node).visited)).sum + cost g s.visited node =
      (g.nodes.map (cost g s.visited)).sum + cost g (s.enter g node).visited node :=
    Graph.sum_nodes_update hlt fun v _ hne => by simp [cost, hvisited, hne]
  have hframes : ((s.enter g node).frames.map fun f => f.pending.length + 1).sum =
      (g.deps node).length + 1 + (s.frames.map fun f => f.pending.length + 1).sum := by
    simp [State.enter]
  have hroots : (s.enter g node).roots = s.roots := rfl
  rw [hbefore, hafter] at hcosts
  rw [State.load, State.load, hframes, hroots]
  omega

theorem load_move (h : Aligned g included s) (hmove : Move g included s s') :
    s'.load g + 1 = s.load g := by
  cases hmove with
  | skipRoot hframes hroots _ =>
      simp only [State.load, hframes, hroots, List.length_cons]
      omega
  | @enterRoot root roots hframes hroots hnew hin =>
      rw [load_enter (h.congr roots s.found) hnew]
      simp only [State.load, hframes, hroots, List.length_cons]
      omega
  | leave hframes =>
      simp only [State.load, State.leave, hframes, List.map_cons, List.sum_cons, List.length_nil]
      omega
  | pass hframes _ =>
      simp only [State.load, hframes, List.map_cons, List.sum_cons, List.length_cons]
      omega
  | close hframes _ _ =>
      simp only [State.load, State.close, hframes, List.map_cons, List.sum_cons, List.length_cons]
      omega
  | enter hframes hin hnew =>
      rw [load_enter (h.advance hframes) hnew]
      simp only [State.load, hframes, List.map_cons, List.sum_cons, List.length_cons]
      omega

/-! ## The end -/

theorem State.isOver_iff :
    s.isOver onlyFirst = true ↔
      (s.roots = [] ∧ s.frames = []) ∨ onlyFirst = true ∧ s.found ≠ #[] := by
  simp [State.isOver]

theorem run_isOver (h : Aligned g included s) {steps : Nat} (hload : s.load g ≤ steps) :
    (s.run g included onlyFirst steps).isOver onlyFirst = true := by
  induction steps generalizing s with
  | zero =>
      rw [Nat.le_zero, State.load] at hload
      have hroots : s.roots = [] := List.length_eq_zero_iff.1 (by omega)
      refine State.isOver_iff.2 (Or.inl ⟨hroots, ?_⟩)
      cases hframes : s.frames with
      | nil => exact hframes
      | cons f outer => simp [hframes] at hload
  | succ steps ih =>
      rw [State.run]
      split
      · assumption
      · rename_i hover
        rw [State.isOver_iff, not_or] at hover
        have hmove : Move g included s (s.step g included) := step_move hover.1
        have hless := load_move h hmove
        exact ih (h.move hmove) (by omega)

theorem run_of_isOver (h : s.isOver onlyFirst = true) (steps : Nat) :
    s.run g included onlyFirst steps = s := by
  cases steps with
  | zero => rfl
  | succ steps => rw [State.run, if_pos h]

/-- The state in which the walk ends. -/
def final (g : Graph) (included : Nat → Bool) (onlyFirst : Bool) : State :=
  (State.initial g).run g included onlyFirst (stepBound g)

theorem walk_eq (g : Graph) (included : Nat → Bool) (onlyFirst : Bool) :
    walk g included onlyFirst = (final g included onlyFirst).found.toList.map (Cycle.ofNodes g) :=
  rfl

/-- The full walk ends with nothing left to do. -/
theorem final_done (h : g.WellFormed) (included : Nat → Bool) :
    (final g included false).roots = [] ∧ (final g included false).frames = [] := by
  have hover : (final g included false).isOver false = true :=
    run_isOver (aligned_initial g included) (Nat.le_of_eq (load_initial h))
  rcases State.isOver_iff.1 hover with hdone | ⟨hfirst, _⟩
  · exact hdone
  · cases hfirst

/-! ## Stopping at the first cycle -/

theorem found_move (hmove : Move g included s s') :
    s'.found = s.found ∨ ∃ cycle, s'.found = s.found.push cycle := by
  cases hmove with
  | close => exact Or.inr ⟨_, rfl⟩
  | _ => exact Or.inl rfl

theorem found_run (s : State) (onlyFirst : Bool) (steps : Nat) :
    s.found.toList <+: (s.run g included onlyFirst steps).found.toList := by
  refine run_induct (P := fun t => s.found.toList <+: t.found.toList) onlyFirst ?_ steps
    List.prefix_rfl
  intro t t' ht hmove
  rcases found_move hmove with hsame | ⟨cycle, hpush⟩
  · rwa [hsame]
  · rw [hpush, Array.toList_push]
    exact ht.trans (List.prefix_append _ _)

theorem run_onlyFirst (hfound : s.found = #[]) (steps : Nat) :
    (s.run g included true steps).found.toList =
      (s.run g included false steps).found.toList.take 1 := by
  induction steps generalizing s with
  | zero => simp [State.run, hfound]
  | succ steps ih =>
      have hover : s.isOver true = s.isOver false := by simp [State.isOver, hfound]
      rw [State.run, State.run, hover]
      split
      · simp [hfound]
      · rename_i hnot
        rw [State.isOver_iff, not_or] at hnot
        have hmove : Move g included s (s.step g included) := step_move hnot.1
        rcases found_move hmove with hsame | ⟨cycle, hpush⟩
        · exact ih (hsame.trans hfound)
        · -- The first cycle is found here: one walk stops, the other only adds behind it.
          rw [hfound] at hpush
          have hstop : (s.step g included).isOver true = true := by
            simp [State.isOver, hpush]
          have hprefix : (s.step g included).found.toList <+:
              ((s.step g included).run g included false steps).found.toList :=
            found_run _ false steps
          obtain ⟨later, hlater⟩ := hprefix
          rw [run_of_isOver hstop, ← hlater, hpush]
          simp

theorem walk_onlyFirst (g : Graph) (included : Nat → Bool) :
    walk g included true = (walk g included false).take 1 := by
  rw [walk_eq, walk_eq, ← List.map_take]
  exact congrArg _ (run_onlyFirst rfl _)

end LayerLint.CycleWalk
