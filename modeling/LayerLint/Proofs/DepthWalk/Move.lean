import Mathlib.Data.List.Nodup
import LayerLint.Graph.Depth
import LayerLint.Proofs.Graph.Build
import LayerLint.Proofs.Graph.Dependence
import LayerLint.Proofs.Marks

/-!
# Moves of the walk for depths

The ways in which a step of the walk can change it, and what they all keep: the path and the tables
of nodes stay in step, and a depth that is known stays known.
-/

namespace LayerLint.DepthTable

variable {g : Graph} {w w' : Walk}

/-- The depth of a node whose dependencies have at most this depth. -/
def depthOver (g : Graph) (node deepest : Nat) : Nat :=
  if (g.deps node).isEmpty then 0 else deepest + 1

/-! ## Moves -/

/-- The ways the walk goes on. -/
inductive Move (g : Graph) (w : Walk) : Walk → Prop
  | finish {node deepest outer} (hframes : w.frames = ⟨node, [], deepest⟩ :: outer) :
      Move g w (w.finish node (depthOver g node deepest) outer)
  | learn {node target pending deepest outer depth}
      (hframes : w.frames = ⟨node, target :: pending, deepest⟩ :: outer)
      (hknown : w.table.depth? target = some depth) :
      Move g w { w with frames := ⟨node, pending, max deepest depth⟩ :: outer }
  | pass {node target pending deepest outer}
      (hframes : w.frames = ⟨node, target :: pending, deepest⟩ :: outer)
      (hunknown : w.table.depth? target = none) (hon : w.table.onPath[target]? ≠ some false) :
      Move g w { w with frames := ⟨node, pending, deepest⟩ :: outer }
  | enter {node target pending deepest outer}
      (hframes : w.frames = ⟨node, target :: pending, deepest⟩ :: outer)
      (hunknown : w.table.depth? target = none) (hoff : w.table.onPath[target]? = some false) :
      Move g w ({ w with frames := ⟨node, pending, deepest⟩ :: outer }.enter g target)

theorem step_move (h : w.frames ≠ []) : Move g w (w.step g) := by
  unfold Walk.step
  split
  · rename_i hframes
    exact absurd hframes h
  · rename_i node deepest outer hframes
    exact .finish hframes
  · rename_i node target pending deepest outer hframes
    unfold Walk.look
    split
    · rename_i depth hknown
      exact .learn hframes hknown
    · rename_i hunknown
      split
      · rename_i hon
        exact .pass hframes hunknown (Marks.getD_true_iff.1 hon)
      · rename_i hoff
        rw [Marks.getD_true_iff, not_not] at hoff
        exact .enter hframes hunknown hoff

theorem run_induct {P : Walk → Prop} (hmove : ∀ {w w'}, P w → Move g w w' → P w') (steps : Nat)
    (hw : P w) : P (w.run g steps) := by
  induction steps generalizing w with
  | zero => exact hw
  | succ steps ih =>
      rw [Walk.run]
      split
      · exact hw
      · rename_i hnone
        exact ih (hmove hw (step_move (by simpa using hnone)))

/-! ## Known depths -/

variable {table table' : DepthTable} {u v d : Nat}

/-- What a table knows, the other knows as well. -/
def Retains (table table' : DepthTable) : Prop :=
  ∀ v d, table.depth? v = some d → table'.depth? v = some d

theorem Retains.refl (table : DepthTable) : Retains table table :=
  fun _ _ h => h

theorem Retains.trans {table'' : DepthTable} (h : Retains table table')
    (h' : Retains table' table'') : Retains table table'' :=
  fun v d hv => h' v d (h v d hv)

/-! ## The tables and the path -/

/-- The nodes on the path, innermost first. -/
def Walk.stack (w : Walk) : List Nat :=
  w.frames.map Frame.node

theorem map_node_learn (depth : Nat) (frames : List Frame) :
    (Walk.learn depth frames).map Frame.node = frames.map Frame.node := by
  cases frames <;> rfl

theorem exists_of_mem_learn {depth : Nat} {frames : List Frame} {f : Frame}
    (hf : f ∈ Walk.learn depth frames) :
    ∃ old ∈ frames, f.node = old.node ∧ f.pending = old.pending := by
  cases frames with
  | nil => cases hf
  | cons inner outer =>
      rcases List.mem_cons.1 hf with rfl | hf
      · exact ⟨inner, List.mem_cons_self, rfl, rfl⟩
      · exact ⟨f, List.mem_cons_of_mem _ hf, rfl, rfl⟩

/-- The tables and the frames tell the same. -/
structure Aligned (g : Graph) (w : Walk) : Prop where
  size_known : w.table.known.size = g.size
  size_onPath : w.table.onPath.size = g.size
  stack_nodup : w.stack.Nodup
  onPath_iff : ∀ v : Nat, w.table.onPath[v]? = some true ↔ v ∈ w.stack
  unknown_of_mem : ∀ v ∈ w.stack, w.table.depth? v = none
  stack_chain : w.stack.IsChain fun inner outer => g.DependsOn outer inner
  pending_suffix : ∀ f ∈ w.frames, f.pending <:+ g.deps f.node

theorem Aligned.lt_of_mem (h : Aligned g w) (hv : v ∈ w.stack) : v < g.size := by
  have hon := (h.onPath_iff v).2 hv
  exact h.size_onPath ▸ (Array.getElem?_eq_some_iff.1 hon).1

/-- Nodes on the path get to the innermost one. -/
theorem Aligned.reaches_head (h : Aligned g w) {inner : Nat} (hinner : w.stack.head? = some inner)
    (hv : v ∈ w.stack) : g.Reaches v inner := by
  obtain ⟨rest, hstack⟩ := List.head?_eq_some_iff.1 hinner
  have hchain := h.stack_chain
  rw [hstack] at hchain hv
  have hrest : ∀ x ∈ rest, g.Reaches x inner :=
    hchain.cons_induction (g.Reaches · inner) rest (fun _ _ hxy hx => .head hxy hx) .refl
  rcases List.mem_cons.1 hv with rfl | hv
  · exact .refl
  · exact hrest v hv

variable {node target : Nat} {pending : List Nat} {deepest : Nat} {outer : List Frame}

theorem stack_advance (hframes : w.frames = ⟨node, target :: pending, deepest⟩ :: outer)
    (depth : Nat) :
    Walk.stack { w with frames := ⟨node, pending, depth⟩ :: outer } = w.stack := by
  simp [Walk.stack, hframes]

/-- A change of the depth in a frame, or of what it has to look at, keeps the path. -/
theorem Aligned.advance (h : Aligned g w)
    (hframes : w.frames = ⟨node, target :: pending, deepest⟩ :: outer) (depth : Nat) :
    Aligned g { w with frames := ⟨node, pending, depth⟩ :: outer } := by
  have hstack := stack_advance hframes depth
  refine ⟨h.size_known, h.size_onPath, ?_, ?_, ?_, ?_, ?_⟩
  · rw [hstack]
    exact h.stack_nodup
  · rw [hstack]
    exact h.onPath_iff
  · rw [hstack]
    exact h.unknown_of_mem
  · rw [hstack]
    exact h.stack_chain
  · intro f hf
    have hpending := h.pending_suffix
    rw [hframes] at hpending
    rcases List.mem_cons.1 hf with rfl | hf
    · exact (List.suffix_cons target pending).trans (hpending _ List.mem_cons_self)
    · exact hpending f (List.mem_cons_of_mem _ hf)

theorem Aligned.dependsOn_pending (h : Aligned g w)
    (hframes : w.frames = ⟨node, target :: pending, deepest⟩ :: outer) :
    g.DependsOn node target := by
  have hsuffix := h.pending_suffix ⟨node, target :: pending, deepest⟩
    (hframes ▸ List.mem_cons_self)
  exact hsuffix.mem List.mem_cons_self

theorem Aligned.enter (h : Aligned g w) (hunknown : w.table.depth? target = none)
    (hoff : w.table.onPath[target]? = some false)
    (hdep : ∀ outer ∈ w.stack.head?, g.DependsOn outer target) : Aligned g (w.enter g target) := by
  have hlt : target < w.table.onPath.size := (Array.getElem?_eq_some_iff.1 hoff).1
  have honPath := Marks.getElem?_set w.table.onPath hlt true
  have hnot : target ∉ w.stack := by
    intro hmem
    rw [(h.onPath_iff target).2 hmem] at hoff
    cases hoff
  refine ⟨h.size_known, ?_, List.nodup_cons.2 ⟨hnot, h.stack_nodup⟩, ?_, ?_,
    h.stack_chain.cons hdep, ?_⟩
  · simpa [Walk.enter] using h.size_onPath
  · intro v
    show (w.table.onPath.setIfInBounds target true)[v]? = some true ↔ v ∈ target :: w.stack
    rw [honPath, List.mem_cons, ← h.onPath_iff]
    by_cases hv : v = target <;> simp [hv]
  · intro v hv
    rcases List.mem_cons.1 hv with rfl | hv
    · exact hunknown
    · exact h.unknown_of_mem v hv
  · intro f hf
    rcases List.mem_cons.1 hf with rfl | hf
    · exact List.suffix_rfl
    · exact h.pending_suffix f hf

theorem stack_finish (hframes : w.frames = ⟨node, pending, deepest⟩ :: outer) (depth : Nat) :
    w.stack = node :: (w.finish node depth outer).stack := by
  simp [Walk.stack, Walk.finish, hframes, map_node_learn]

theorem depth?_finish (hlt : node < w.table.known.size) (depth : Nat) (v : Nat) :
    (w.finish node depth outer).table.depth? v =
      if v = node then some depth else w.table.depth? v := by
  show ((w.table.known.setIfInBounds node (some depth))[v]?).join = _
  rw [Marks.getElem?_set _ hlt]
  split <;> rfl

theorem Aligned.finish (h : Aligned g w)
    (hframes : w.frames = ⟨node, pending, deepest⟩ :: outer) (depth : Nat) :
    Aligned g (w.finish node depth outer) := by
  have hstack := stack_finish hframes depth
  have hlt : node < g.size := h.lt_of_mem (hstack ▸ List.mem_cons_self)
  have honPath := Marks.getElem?_set w.table.onPath (h.size_onPath ▸ hlt) false
  have hnodup := h.stack_nodup
  have hchain := h.stack_chain
  rw [hstack] at hnodup hchain
  obtain ⟨hnot, hnodup⟩ := List.nodup_cons.1 hnodup
  refine ⟨?_, ?_, hnodup, ?_, ?_, hchain.tail, ?_⟩
  · simpa [Walk.finish] using h.size_known
  · simpa [Walk.finish] using h.size_onPath
  · intro v
    have hon := h.onPath_iff v
    rw [hstack, List.mem_cons] at hon
    show (w.table.onPath.setIfInBounds node false)[v]? = some true ↔
      v ∈ (w.finish node depth outer).stack
    rw [honPath]
    by_cases hv : v = node
    · subst hv
      simpa using hnot
    · simpa [hv] using hon
  · intro v hv
    rw [depth?_finish (h.size_known ▸ hlt), if_neg fun heq : v = node => hnot (heq ▸ hv)]
    exact h.unknown_of_mem v (hstack ▸ List.mem_cons_of_mem _ hv)
  · intro f hf
    obtain ⟨old, hold, hnode, hpending⟩ := exists_of_mem_learn hf
    rw [hnode, hpending]
    exact h.pending_suffix old (hframes ▸ List.mem_cons_of_mem _ hold)

theorem Aligned.move (h : Aligned g w) (hmove : Move g w w') : Aligned g w' := by
  cases hmove with
  | finish hframes => exact h.finish hframes _
  | learn hframes _ => exact h.advance hframes _
  | pass hframes _ _ => exact h.advance hframes _
  | enter hframes hunknown hoff =>
      refine (h.advance hframes _).enter hunknown hoff ?_
      intro outer houter
      obtain rfl : _ = outer := by simpa [Walk.stack] using houter
      exact h.dependsOn_pending hframes

/-- A node leaves the path with a depth. -/
theorem Aligned.mem_or_known (h : Aligned g w) (hmove : Move g w w') (hv : v ∈ w.stack) :
    v ∈ w'.stack ∨ ∃ d, w'.table.depth? v = some d := by
  cases hmove with
  | @finish node deepest outer hframes =>
      have hstack := stack_finish hframes (depthOver g node deepest)
      rw [hstack, List.mem_cons] at hv
      rcases hv with rfl | hv
      · have hlt := h.lt_of_mem (hstack ▸ List.mem_cons_self)
        exact Or.inr ⟨_, by rw [depth?_finish (h.size_known ▸ hlt), if_pos rfl]⟩
      · exact Or.inl hv
  | learn hframes _ =>
      rw [Walk.stack, hframes] at hv
      exact Or.inl hv
  | pass hframes _ _ =>
      rw [Walk.stack, hframes] at hv
      exact Or.inl hv
  | enter hframes _ _ =>
      rw [Walk.stack, hframes] at hv
      exact Or.inl (List.mem_cons_of_mem _ hv)

theorem Aligned.retains (h : Aligned g w) (hmove : Move g w w') : Retains w.table w'.table := by
  cases hmove with
  | @finish node deepest outer hframes =>
      intro v d hv
      have hmem : node ∈ w.stack :=
        stack_finish hframes (depthOver g node deepest) ▸ List.mem_cons_self
      -- Nothing was known of the node that is finished: it was on the path.
      rw [depth?_finish (h.size_known ▸ h.lt_of_mem hmem), if_neg]
      · exact hv
      · rintro rfl
        rw [h.unknown_of_mem v hmem] at hv
        cases hv
  | learn => exact .refl _
  | pass => exact .refl _
  | enter => exact .refl _

end LayerLint.DepthTable
