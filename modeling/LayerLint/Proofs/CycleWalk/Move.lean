import Mathlib.Data.List.Nodup
import LayerLint.Graph.CycleWalk
import LayerLint.Proofs.Graph.Build
import LayerLint.Proofs.Graph.Dependence
import LayerLint.Proofs.Marks

/-!
# Moves of the walk

The ways in which a step of the walk can change its state, and what they all keep: the path, the
frames and the tables of nodes stay in step.
-/

namespace LayerLint.CycleWalk

variable {g : Graph} {included : Nat → Bool} {s : State}

/-! ## Moves -/

/-- The ways the walk goes on. -/
inductive Move (g : Graph) (included : Nat → Bool) (s : State) : State → Prop
  | skipRoot {root roots} (hframes : s.frames = []) (hroots : s.roots = root :: roots)
      (hskip : s.visited[root]? ≠ some false ∨ included root = false) :
      Move g included s { s with roots }
  | enterRoot {root roots} (hframes : s.frames = []) (hroots : s.roots = root :: roots)
      (hnew : s.visited[root]? = some false) (hin : included root = true) :
      Move g included s ({ s with roots }.enter g root)
  | leave {node outer} (hframes : s.frames = ⟨node, []⟩ :: outer) :
      Move g included s (s.leave node outer)
  | pass {node target pending outer} (hframes : s.frames = ⟨node, target :: pending⟩ :: outer)
      (hpass : included target = false ∨
        s.onPath[target]? ≠ some true ∧ s.visited[target]? ≠ some false) :
      Move g included s { s with frames := ⟨node, pending⟩ :: outer }
  | close {node target pending outer} (hframes : s.frames = ⟨node, target :: pending⟩ :: outer)
      (hin : included target = true) (hon : s.onPath[target]? = some true) :
      Move g included s ({ s with frames := ⟨node, pending⟩ :: outer }.close target)
  | enter {node target pending outer} (hframes : s.frames = ⟨node, target :: pending⟩ :: outer)
      (hin : included target = true) (hnew : s.visited[target]? = some false) :
      Move g included s ({ s with frames := ⟨node, pending⟩ :: outer }.enter g target)

/-- While there is something left to do, a step is one of the moves. -/
theorem step_move (h : ¬(s.roots = [] ∧ s.frames = [])) :
    Move g included s (s.step g included) := by
  unfold State.step
  split
  · rename_i hframes
    split
    · rename_i hroots
      exact absurd ⟨hroots, hframes⟩ h
    · rename_i root roots hroots
      unfold State.start
      split
      · rename_i hskip
        rw [Bool.or_eq_true, Marks.getD_true_iff, Bool.not_eq_true'] at hskip
        exact .skipRoot hframes hroots hskip
      · rename_i hskip
        rw [Bool.or_eq_true, Marks.getD_true_iff, Bool.not_eq_true', not_or, not_not,
          Bool.not_eq_false] at hskip
        exact .enterRoot hframes hroots hskip.1 hskip.2
  · rename_i node outer hframes
    exact .leave hframes
  · rename_i node target pending outer hframes
    unfold State.look
    split
    · rename_i hin
      exact .pass hframes (Or.inl (by simpa using hin))
    · rename_i hin
      rw [Bool.not_eq_true', Bool.not_eq_false] at hin
      split
      · rename_i hon
        exact .close hframes hin (Marks.getD_false_iff.1 hon)
      · rename_i hon
        split
        · rename_i hvisited
          exact .pass hframes (Or.inr ⟨fun h => hon (Marks.getD_false_iff.2 h),
            Marks.getD_true_iff.1 hvisited⟩)
        · rename_i hvisited
          rw [Marks.getD_true_iff, not_not] at hvisited
          exact .enter hframes hin hvisited

/-- What every move keeps, a run keeps. -/
theorem run_induct {P : State → Prop} (onlyFirst : Bool)
    (hmove : ∀ {s s'}, P s → Move g included s s' → P s') (steps : Nat) (hs : P s) :
    P (s.run g included onlyFirst steps) := by
  induction steps generalizing s with
  | zero => exact hs
  | succ steps ih =>
      rw [State.run]
      split
      · exact hs
      · rename_i hover
        refine ih (hmove hs (step_move ?_))
        rintro ⟨hroots, hframes⟩
        simp [State.isOver, hroots, hframes] at hover

/-! ## The tables and the path -/

/-- The nodes entered and not left, innermost first. -/
def State.stack (s : State) : List Nat :=
  s.frames.map Frame.node

theorem stack_enter (s : State) (node : Nat) : (s.enter g node).stack = node :: s.stack :=
  rfl

theorem stack_leave {node : Nat} {pending : List Nat} {outer : List Frame}
    (hframes : s.frames = ⟨node, pending⟩ :: outer) :
    s.stack = node :: (s.leave node outer).stack := by
  simp [State.stack, State.leave, hframes]

theorem stack_advance {node target : Nat} {pending : List Nat} {outer : List Frame}
    (hframes : s.frames = ⟨node, target :: pending⟩ :: outer) :
    State.stack { s with frames := ⟨node, pending⟩ :: outer } = s.stack := by
  simp [State.stack, hframes]

theorem ne_of_visited {v node : Nat} (hv : s.visited[v]? = some true)
    (hnew : s.visited[node]? = some false) : v ≠ node := by
  rintro rfl
  rw [hv] at hnew
  cases hnew

theorem visited_enter {node : Nat} (hnew : s.visited[node]? = some false) (v : Nat) :
    (s.enter g node).visited[v]? = if v = node then some true else s.visited[v]? :=
  Marks.getElem?_set s.visited (Array.getElem?_eq_some_iff.1 hnew).1 true v

theorem visited_enter_iff {node v : Nat} (hnew : s.visited[node]? = some false) :
    (s.enter g node).visited[v]? = some true ↔ v = node ∨ s.visited[v]? = some true := by
  rw [visited_enter hnew]
  by_cases hv : v = node <;> simp [hv]

/-- The tables, the path and the frames tell the same. -/
structure Aligned (g : Graph) (included : Nat → Bool) (s : State) : Prop where
  size_visited : s.visited.size = g.size
  size_onPath : s.onPath.size = g.size
  size_position : s.position.size = g.size
  path_eq : s.path.toList = s.stack.reverse
  stack_nodup : s.stack.Nodup
  onPath_iff : ∀ v : Nat, s.onPath[v]? = some true ↔ v ∈ s.stack
  visited_of_mem : ∀ v ∈ s.stack, s.visited[v]? = some true
  position_eq : ∀ i v : Nat, s.path[i]? = some v → s.position[v]? = some i
  included_of_visited : ∀ v : Nat, s.visited[v]? = some true → included v = true
  stack_chain : s.stack.IsChain fun inner outer => g.DependsOn outer inner
  pending_suffix : ∀ f ∈ s.frames, f.pending <:+ g.deps f.node

theorem aligned_initial (g : Graph) (included : Nat → Bool) :
    Aligned g included (.initial g) := by
  constructor <;> simp [State.initial, State.stack, Array.getElem?_replicate]

/-- Neither the roots nor the cycles found matter. -/
theorem Aligned.congr (h : Aligned g included s) (roots : List Nat) (found : Array (List Nat)) :
    Aligned g included { s with roots, found } :=
  { h with }

theorem Aligned.advance (h : Aligned g included s) {node target : Nat} {pending : List Nat}
    {outer : List Frame} (hframes : s.frames = ⟨node, target :: pending⟩ :: outer) :
    Aligned g included { s with frames := ⟨node, pending⟩ :: outer } := by
  have hstack := stack_advance hframes
  refine ⟨h.size_visited, h.size_onPath, h.size_position, ?_, ?_, ?_, ?_, h.position_eq,
    h.included_of_visited, ?_, ?_⟩
  · rw [hstack]
    exact h.path_eq
  · rw [hstack]
    exact h.stack_nodup
  · rw [hstack]
    exact h.onPath_iff
  · rw [hstack]
    exact h.visited_of_mem
  · rw [hstack]
    exact h.stack_chain
  · intro f hf
    have hpending := h.pending_suffix
    rw [hframes] at hpending
    rcases List.mem_cons.1 hf with rfl | hf
    · exact (List.suffix_cons target pending).trans (hpending _ List.mem_cons_self)
    · exact hpending f (List.mem_cons_of_mem _ hf)

theorem Aligned.mem_path (h : Aligned g included s) {i v : Nat} (hv : s.path[i]? = some v) :
    v ∈ s.stack := by
  rw [← List.mem_reverse, ← h.path_eq, Array.mem_toList_iff]
  exact Array.mem_of_getElem? hv

theorem Aligned.enter (h : Aligned g included s) {node : Nat}
    (hnew : s.visited[node]? = some false) (hin : included node = true)
    (hdep : ∀ outer ∈ s.stack.head?, g.DependsOn outer node) :
    Aligned g included (s.enter g node) := by
  have hlt : node < g.size := h.size_visited ▸ (Array.getElem?_eq_some_iff.1 hnew).1
  have hnot : node ∉ s.stack := fun hmem => ne_of_visited (h.visited_of_mem node hmem) hnew rfl
  have honPath := Marks.getElem?_set s.onPath (h.size_onPath ▸ hlt) true
  have hposition := Marks.getElem?_set s.position (h.size_position ▸ hlt) s.path.size
  refine ⟨?_, ?_, ?_, ?_, ?_, ?_, ?_, ?_, ?_, ?_, ?_⟩
  · simpa [State.enter] using h.size_visited
  · simpa [State.enter] using h.size_onPath
  · simpa [State.enter] using h.size_position
  · rw [stack_enter, List.reverse_cons, ← h.path_eq]
    exact Array.toList_push
  · exact List.nodup_cons.2 ⟨hnot, h.stack_nodup⟩
  · intro v
    rw [stack_enter, List.mem_cons, ← h.onPath_iff]
    simp only [State.enter, honPath]
    by_cases hv : v = node <;> simp [hv]
  · intro v hv
    exact (visited_enter_iff hnew).2 ((List.mem_cons.1 hv).imp id (h.visited_of_mem v))
  · intro i v hv
    simp only [State.enter, Array.getElem?_push] at hv
    simp only [State.enter, hposition]
    split at hv
    · rename_i hi
      rw [if_pos (Option.some.inj hv).symm, hi]
    · rw [if_neg fun heq : v = node => hnot (heq ▸ h.mem_path hv)]
      exact h.position_eq i v hv
  · intro v hv
    rcases (visited_enter_iff hnew).1 hv with rfl | hv
    · exact hin
    · exact h.included_of_visited v hv
  · exact h.stack_chain.cons hdep
  · intro f hf
    rcases List.mem_cons.1 hf with rfl | hf
    · exact List.suffix_rfl
    · exact h.pending_suffix f hf

theorem Aligned.leave (h : Aligned g included s) {node : Nat} {pending : List Nat}
    {outer : List Frame} (hframes : s.frames = ⟨node, pending⟩ :: outer) :
    Aligned g included (s.leave node outer) := by
  have hstack := stack_leave hframes
  have hmem : node ∈ s.stack := hstack ▸ List.mem_cons_self
  have hlt : node < g.size :=
    h.size_visited ▸ (Array.getElem?_eq_some_iff.1 (h.visited_of_mem node hmem)).1
  have honPath := Marks.getElem?_set s.onPath (h.size_onPath ▸ hlt) false
  have hnodup := h.stack_nodup
  have hchain := h.stack_chain
  rw [hstack] at hnodup hchain
  obtain ⟨hnot, hnodup⟩ := List.nodup_cons.1 hnodup
  refine ⟨h.size_visited, ?_, h.size_position, ?_, hnodup, ?_, ?_, ?_, h.included_of_visited,
    hchain.tail, ?_⟩
  · simpa [State.leave] using h.size_onPath
  · have hpath := h.path_eq
    rw [hstack, List.reverse_cons] at hpath
    show s.path.pop.toList = _
    rw [Array.toList_pop, hpath, List.dropLast_concat]
  · intro v
    have hon := h.onPath_iff v
    rw [hstack, List.mem_cons] at hon
    show (s.onPath.setIfInBounds node false)[v]? = some true ↔ v ∈ (s.leave node outer).stack
    rw [honPath]
    by_cases hv : v = node
    · subst hv
      simpa using hnot
    · simpa [hv] using hon
  · intro v hv
    exact h.visited_of_mem v (hstack ▸ List.mem_cons_of_mem _ hv)
  · intro i v hv
    refine h.position_eq i v ?_
    simp only [State.leave, Array.getElem?_pop] at hv
    split at hv
    · exact hv
    · cases hv
  · intro f hf
    exact h.pending_suffix f (hframes ▸ List.mem_cons_of_mem _ hf)

/-- The innermost node depends on what it still has to look at. -/
theorem Aligned.dependsOn_pending (h : Aligned g included s) {node target : Nat}
    {pending : List Nat} {outer : List Frame}
    (hframes : s.frames = ⟨node, target :: pending⟩ :: outer) : g.DependsOn node target := by
  have hsuffix := h.pending_suffix ⟨node, target :: pending⟩ (hframes ▸ List.mem_cons_self)
  exact hsuffix.mem List.mem_cons_self

theorem Aligned.move {s' : State} (h : Aligned g included s) (hmove : Move g included s s') :
    Aligned g included s' := by
  cases hmove with
  | @skipRoot root roots _ _ _ => exact h.congr roots s.found
  | @enterRoot root roots hframes _ hnew hin =>
      refine (h.congr roots s.found).enter hnew hin ?_
      simp [State.stack, hframes]
  | leave hframes => exact h.leave hframes
  | pass hframes _ => exact h.advance hframes
  | close hframes _ _ => exact (h.advance hframes).congr s.roots _
  | enter hframes hin hnew =>
      refine (h.advance hframes).enter hnew hin ?_
      intro outer houter
      obtain rfl : _ = outer := by simpa [State.stack] using houter
      exact h.dependsOn_pending hframes

/-! ## Moves as steps -/

theorem Aligned.step_eq {s' : State} (ha : Aligned g included s) (hmove : Move g included s s') :
    s.step g included = s' := by
  cases hmove with
  | skipRoot hframes hroots hskip =>
      simp only [State.step, hframes, hroots, State.start]
      refine if_pos ?_
      rwa [Bool.or_eq_true, Marks.getD_true_iff, Bool.not_eq_true']
  | enterRoot hframes hroots hnew hin =>
      simp [State.step, hframes, hroots, State.start, hnew, hin]
  | leave hframes => simp [State.step, hframes]
  | pass hframes hpass =>
      simp only [State.step, hframes, State.look]
      rcases hpass with hout | ⟨hon, hvisited⟩
      · simp [hout]
      · rw [Ne, ← Marks.getD_false_iff] at hon
        rw [← Marks.getD_true_iff] at hvisited
        simp [hon, hvisited]
  | close hframes hin hon => simp [State.step, hframes, State.look, hin, hon]
  | @enter node target pending outer hframes hin hnew =>
      have hon : s.onPath[target]? ≠ some true := by
        rw [Ne, ha.onPath_iff]
        exact fun hmem => ne_of_visited (ha.visited_of_mem target hmem) hnew rfl
      rw [Ne, ← Marks.getD_false_iff] at hon
      simp [State.step, hframes, State.look, hin, hnew, hon]

theorem Move.not_isOver {s' : State} (hmove : Move g included s s') : s.isOver false = false := by
  cases hmove <;> simp_all [State.isOver]

end LayerLint.CycleWalk
