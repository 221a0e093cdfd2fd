import LayerLint.Proofs.DepthWalk.Answer

/-!
# What a table knows

Between two questions the nodes of known depth are closed under dependencies: what one of them
depends on is known as well. Within a walk this fails, for a node on a cycle is finished while the
walk still stands on a dependency of it. What holds there is that the dependencies looked at are
known or on the path, and that the walk stays with what its first node reaches.
-/

namespace LayerLint.DepthTable

/-- The depth of a node is known. -/
def Knows (table : DepthTable) (node : Nat) : Prop :=
  ∃ depth, table.depth? node = some depth

/-- What a known node depends on is known. -/
def Closed (g : Graph) (table : DepthTable) : Prop :=
  ∀ u v, table.Knows u → g.DependsOn u v → table.Knows v

/-- A node is finished or on the path. -/
def Walk.Met (w : Walk) (node : Nat) : Prop :=
  w.table.Knows node ∨ node ∈ w.stack

/-- The dependencies of the finished nodes, and those that the nodes on the path have looked at, are
finished or on the path. -/
structure Covered (g : Graph) (w : Walk) : Prop where
  finished : ∀ u v, w.table.Knows u → g.DependsOn u v → w.Met v
  looked : ∀ f ∈ w.frames, ∀ v, g.DependsOn f.node v → v ∉ f.pending → w.Met v

/-- A walk that meets nothing but what its first node reaches, and knows nothing else but what was
known before. -/
structure Within (g : Graph) (before : DepthTable) (first : Nat) (w : Walk) : Prop where
  stack : ∀ v ∈ w.stack, g.Reaches first v
  known : ∀ v, w.table.Knows v → before.Knows v ∨ g.Reaches first v

variable {g : Graph} {w w' : Walk} {table before : DepthTable} {u v node target first deepest : Nat}
  {pending : List Nat} {outer : List Frame}

theorem Retains.knows {table' : DepthTable} (h : Retains table table') (hv : table.Knows v) :
    table'.Knows v := by
  obtain ⟨d, hd⟩ := hv
  exact ⟨d, h v d hd⟩

theorem Closed.of_reaches (h : Closed g table) (hu : table.Knows u) (huv : g.Reaches u v) :
    table.Knows v := by
  induction huv with
  | refl => exact hu
  | tail _ hdep ih => exact h _ _ ih hdep

theorem knows_finish (h : Aligned g w) (hframes : w.frames = ⟨node, pending, deepest⟩ :: outer)
    (depth : Nat) :
    (w.finish node depth outer).table.Knows v ↔ v = node ∨ w.table.Knows v := by
  have hlt : node < w.table.known.size := by
    rw [h.size_known]
    exact h.lt_of_mem (stack_finish hframes depth ▸ List.mem_cons_self)
  simp only [Knows, depth?_finish hlt]
  by_cases hv : v = node <;> simp [hv]

/-! ## What must be known -/

theorem Aligned.met_move (h : Aligned g w) (hmove : Move g w w') (hv : w.Met v) : w'.Met v := by
  rcases hv with hknown | hmem
  · exact Or.inl ((h.retains hmove).knows hknown)
  · exact (h.mem_or_known hmove hmem).symm

/-- What is pending goes on being so, but for the dependency that was met. -/
theorem Covered.looked_advance (h : Covered g w) (hmet : ∀ v, w.Met v → w'.Met v)
    (hframes : w.frames = ⟨node, target :: pending, deepest⟩ :: outer) (htarget : w'.Met target)
    (depth : Nat) : ∀ f ∈ (⟨node, pending, depth⟩ : Frame) :: outer, ∀ v,
      g.DependsOn f.node v → v ∉ f.pending → w'.Met v := by
  have hlooked := h.looked
  rw [hframes] at hlooked
  intro f hf v hdep hnot
  rcases List.mem_cons.1 hf with rfl | hf
  · by_cases hv : v = target
    · exact hv ▸ htarget
    · exact hmet v (hlooked _ List.mem_cons_self v hdep (by simpa [hv] using hnot))
  · exact hmet v (hlooked f (List.mem_cons_of_mem _ hf) v hdep hnot)

theorem Covered.finish (ha : Aligned g w) (h : Covered g w)
    (hframes : w.frames = ⟨node, [], deepest⟩ :: outer) :
    Covered g (w.finish node (depthOver g node deepest) outer) := by
  have hmet : ∀ v, w.Met v → (w.finish node (depthOver g node deepest) outer).Met v :=
    fun v => ha.met_move (.finish hframes)
  have hlooked := h.looked
  rw [hframes] at hlooked
  constructor
  · intro u v hu hdep
    rcases (knows_finish ha hframes _).1 hu with rfl | hu
    · exact hmet v (hlooked _ List.mem_cons_self v hdep List.not_mem_nil)
    · exact hmet v (h.finished u v hu hdep)
  · intro f hf v hdep hnot
    obtain ⟨old, hold, hnode, hpending⟩ := exists_of_mem_learn hf
    rw [hnode] at hdep
    rw [hpending] at hnot
    exact hmet v (hlooked old (List.mem_cons_of_mem _ hold) v hdep hnot)

theorem Covered.move (hg : g.WellFormed) (ha : Aligned g w) (h : Covered g w)
    (hmove : Move g w w') : Covered g w' := by
  have hmet : ∀ v, w.Met v → w'.Met v := fun v => ha.met_move hmove
  have hfinished : w'.table.depth? = w.table.depth? →
      ∀ u v, w'.table.Knows u → g.DependsOn u v → w'.Met v := by
    intro hsame u v hu hdep
    rw [Knows, hsame] at hu
    exact hmet v (h.finished u v hu hdep)
  cases hmove with
  | finish hframes => exact h.finish ha hframes
  | learn hframes hknown =>
      exact ⟨hfinished rfl, h.looked_advance hmet hframes (Or.inl ⟨_, hknown⟩) _⟩
  | @pass node target pending deepest outer hframes _ hon =>
      have hlt : target < w.table.onPath.size :=
        ha.size_onPath ▸ hg.deps_lt (ha.dependsOn_pending hframes)
      have hmem := (ha.onPath_iff target).1 ((Marks.eq_true_iff hlt).2 hon)
      exact ⟨hfinished rfl, h.looked_advance hmet hframes (hmet target (Or.inr hmem)) _⟩
  | @enter node target pending deepest outer hframes _ _ =>
      refine ⟨hfinished rfl, fun f hf v hdep hnot => ?_⟩
      rcases List.mem_cons.1 hf with rfl | hf
      · exact absurd hdep hnot
      · exact h.looked_advance hmet hframes (Or.inr List.mem_cons_self) deepest f hf v hdep hnot

/-! ## What may be known -/

theorem Within.move (ha : Aligned g w) (h : Within g before first w) (hmove : Move g w w') :
    Within g before first w' := by
  cases hmove with
  | @finish node deepest outer hframes =>
      have hstack := stack_finish hframes (depthOver g node deepest)
      have hreached := h.stack
      rw [hstack] at hreached
      refine ⟨fun v hv => hreached v (List.mem_cons_of_mem _ hv), fun v hv => ?_⟩
      rcases (knows_finish ha hframes _).1 hv with rfl | hv
      · exact Or.inr (hreached v List.mem_cons_self)
      · exact h.known v hv
  | learn hframes _ => exact ⟨stack_advance hframes _ ▸ h.stack, h.known⟩
  | pass hframes _ _ => exact ⟨stack_advance hframes _ ▸ h.stack, h.known⟩
  | @enter node target pending deepest outer hframes _ _ =>
      refine ⟨fun v hv => ?_, h.known⟩
      rcases List.mem_cons.1 hv with rfl | hv
      · have hnode : node ∈ w.stack := by simp [Walk.stack, hframes]
        exact (h.stack node hnode).tail (ha.dependsOn_pending hframes)
      · exact h.stack v (stack_advance hframes deepest ▸ hv)

/-! ## From one question to the next -/

theorem closed_empty (g : Graph) : Closed g (.empty g) := by
  rintro u v ⟨d, hd⟩
  rw [depth?_empty] at hd
  cases hd

theorem covered_enter (hclosed : Closed g table) (node : Nat) :
    Covered g (Walk.enter g ⟨table, []⟩ node) := by
  constructor
  · exact fun u v hu hdep => Or.inl (hclosed u v hu hdep)
  · intro f hf v hdep hnot
    rw [List.mem_singleton.1 hf] at hdep hnot
    exact absurd hdep hnot

theorem within_enter (g : Graph) (table : DepthTable) (node : Nat) :
    Within g table node (Walk.enter g ⟨table, []⟩ node) := by
  constructor
  · intro v hv
    rw [List.mem_singleton.1 hv]
    exact .refl
  · exact fun v hv => Or.inl hv

theorem Settled.knows_walkFrom (hg : g.WellFormed) (h : Settled g table) (hclosed : Closed g table)
    (hnode : node < g.size) (hunknown : table.depth? node = none) :
    Closed g (DepthTable.walkFrom g table node).table ∧
      ∀ v, (DepthTable.walkFrom g table node).table.Knows v ↔
        table.Knows v ∨ g.Reaches node v := by
  obtain ⟨_, hcovered, hwithin⟩ : Aligned g (DepthTable.walkFrom g table node) ∧
      Covered g (DepthTable.walkFrom g table node) ∧
      Within g table node (DepthTable.walkFrom g table node) := by
    refine run_induct (P := fun w => Aligned g w ∧ Covered g w ∧ Within g table node w) ?_ _
      ⟨(h.enter hnode hunknown).aligned, covered_enter hclosed node, within_enter g table node⟩
    rintro w w' ⟨ha, hcovered, hwithin⟩ hmove
    exact ⟨ha.move hmove, hcovered.move hg ha hmove, hwithin.move ha hmove⟩
  obtain ⟨_, hretains, hfirst⟩ := h.walkFrom hg hnode hunknown
  -- At the end the path is empty, so what was met is known.
  have hclosed' : Closed g (DepthTable.walkFrom g table node).table := by
    intro u v hu hdep
    refine (hcovered.finished u v hu hdep).resolve_right ?_
    simp [Walk.stack, h.frames_walkFrom hg hnode hunknown]
  refine ⟨hclosed', fun v => ⟨hwithin.known v, ?_⟩⟩
  rintro (hv | hv)
  · exact hretains.knows hv
  · exact hclosed'.of_reaches hfirst hv

/-- A question leaves a closed table closed, and adds to it what the node reaches. -/
theorem Settled.knows_depth (hg : g.WellFormed) (h : Settled g table) (hclosed : Closed g table)
    (hnode : node < g.size) :
    Closed g (DepthTable.depth g table node).2 ∧
      ∀ v, (DepthTable.depth g table node).2.Knows v ↔ table.Knows v ∨ g.Reaches node v := by
  cases hknown : table.depth? node with
  | some d =>
      rw [depth_known hknown]
      exact ⟨hclosed, fun v => ⟨Or.inl, fun hv => hv.elim id (hclosed.of_reaches ⟨d, hknown⟩)⟩⟩
  | none =>
      rw [depth_unknown hknown]
      exact h.knows_walkFrom hg hclosed hnode hknown

theorem Settled.closed_depth (hg : g.WellFormed) (h : Settled g table) (hclosed : Closed g table)
    (node : Nat) : Closed g (DepthTable.depth g table node).2 := by
  by_cases hnode : node < g.size
  · exact (h.knows_depth hg hclosed hnode).1
  · rw [h.table_depth_of_ge hg (Nat.le_of_not_lt hnode)]
    exact hclosed

end LayerLint.DepthTable
