import LayerLint.Proofs.CycleWalk.Closing
import LayerLint.Proofs.Graph.Component

/-!
# The walk and the components

Two passes look for cycles: the walk along the dependency lists, and the search for components along
the edges. They never contradict each other.
-/

namespace LayerLint.Graph

variable {g : Graph} {nodes : List Nat}

theorem genuine_cycles {c : Cycle} (hc : c ∈ g.cycles) :
    CycleWalk.Genuine g (fun _ => true) c.nodes ∧ c.files = c.nodes.map g.path :=
  CycleWalk.genuine_walk hc

theorem WellFormed.exists_closing_edge (h : g.WellFormed) (hcycle : g.IsCycle nodes) :
    ∃ c ∈ g.cycles, ∃ e, c.closingEdge = some e ∧ e ∈ (Cycle.ofNodes g nodes).edges :=
  CycleWalk.exists_closing_edge h hcycle fun _ _ => rfl

theorem WellFormed.cycles_ne_nil_iff (h : g.WellFormed) :
    g.cycles ≠ [] ↔ ∃ nodes, g.IsCycle nodes :=
  (CycleWalk.walk_ne_nil_iff h fun _ => true).trans (by simp)

theorem hasCycle_iff : g.hasCycle = true ↔ g.cycles ≠ [] := by
  rw [hasCycle, CycleWalk.walk_onlyFirst]
  show (!(g.cycles.take 1).isEmpty) = true ↔ g.cycles ≠ []
  cases g.cycles <;> simp

theorem WellFormed.acyclic_iff (h : g.WellFormed) : g.Acyclic ↔ g.hasCycle = false := by
  rw [← Bool.not_eq_true, hasCycle_iff, h.cycles_ne_nil_iff, not_exists]
  rfl

theorem WellFormed.components_ne_nil_iff (h : g.WellFormed) :
    g.components ≠ [] ↔ ∃ nodes, g.IsCycle nodes := by
  constructor
  · intro hne
    obtain ⟨k, hk⟩ := List.exists_mem_of_ne_nil _ hne
    obtain ⟨v, hv⟩ := h.exists_mem_component hk
    obtain ⟨nodes, hcycle, _⟩ := exists_isCycle_of_transGen (h.mem_component_iff.1 ⟨k, hk, hv⟩)
    exact ⟨nodes, hcycle⟩
  · rintro ⟨nodes, hcycle⟩
    obtain ⟨v, hv⟩ := List.exists_mem_of_ne_nil _ hcycle.ne_nil
    obtain ⟨k, hk, _⟩ := h.mem_component_iff.2 (hcycle.transGen hv)
    exact List.ne_nil_of_mem hk

theorem WellFormed.exists_flag_iff (h : g.WellFormed) :
    (∃ v : Nat, g.cyclicNodes[v]? = some true) ↔ ∃ nodes, g.IsCycle nodes := by
  constructor
  · rintro ⟨v, hv⟩
    obtain ⟨k, hk, _⟩ := h.cyclicNodes_iff.1 hv
    exact h.components_ne_nil_iff.1 (List.ne_nil_of_mem hk)
  · rintro ⟨nodes, hcycle⟩
    obtain ⟨v, hv⟩ := List.exists_mem_of_ne_nil _ hcycle.ne_nil
    exact ⟨v, h.cyclicNodes_iff.2 (h.mem_component_iff.2 (hcycle.transGen hv))⟩

/-- A cycle lies within one component. -/
theorem WellFormed.cycle_in_component (h : g.WellFormed) (hcycle : g.IsCycle nodes) :
    ∃ k ∈ g.components, ∀ v ∈ nodes, v ∈ k.nodes := by
  obtain ⟨u, hu⟩ := List.exists_mem_of_ne_nil _ hcycle.ne_nil
  obtain ⟨k, hk, huk⟩ := h.mem_component_iff.2 (hcycle.transGen hu)
  exact ⟨k, hk, fun v hv => h.mem_of_mutual hk huk (hcycle.reaches hu hv) (hcycle.reaches hv hu)⟩

/-- Every component holds a reported cycle. -/
theorem WellFormed.exists_cycle_in_component (h : g.WellFormed) {k : Component}
    (hk : k ∈ g.components) : ∃ c ∈ g.cycles, ∀ v ∈ c.nodes, v ∈ k.nodes := by
  obtain ⟨u, hu⟩ := h.exists_mem_component hk
  obtain ⟨nodes, hcycle, hun⟩ := exists_isCycle_of_transGen (h.mem_component_iff.1 ⟨k, hk, hu⟩)
  -- A cycle through the component is closed by an edge of a reported one, which shares its source.
  obtain ⟨c, hc, e, hedge, hmem⟩ := h.exists_closing_edge hcycle
  have hen : e.1 ∈ nodes := (mem_of_mem_edges hmem).1
  have hec : e.1 ∈ c.nodes := List.mem_of_getLast? (closingPair_eq_some.1 hedge).1
  have hek : e.1 ∈ k.nodes :=
    h.mem_of_mutual hk hu (hcycle.reaches hun hen) (hcycle.reaches hen hun)
  have hreported := (genuine_cycles hc).1.isCycle
  exact ⟨c, hc, fun v hv =>
    h.mem_of_mutual hk hek (hreported.reaches hec hv) (hreported.reaches hv hec)⟩

/-- The walk, the walk that stops early, the components and the flags agree on whether there is a
cycle, and on where. -/
theorem walk_agrees_with_components (project : Project) :
    ((build project).hasCycle = true ↔ (build project).cycles ≠ []) ∧
    ((build project).cycles ≠ [] ↔ (build project).components ≠ []) ∧
    ((build project).components ≠ [] ↔
      ∃ v : Nat, (build project).cyclicNodes[v]? = some true) ∧
    ((∃ v : Nat, (build project).cyclicNodes[v]? = some true) ↔
      ∃ nodes, (build project).IsCycle nodes) ∧
    CycleWalk.walk (build project) (fun _ => true) true = (build project).cycles.take 1 ∧
    (∀ c ∈ (build project).cycles,
      ∃! k, k ∈ (build project).components ∧ ∀ v ∈ c.nodes, v ∈ k.nodes) ∧
    ∀ k ∈ (build project).components,
      ∃ c ∈ (build project).cycles, ∀ v ∈ c.nodes, v ∈ k.nodes := by
  have h := build_wellFormed project
  refine ⟨hasCycle_iff, h.cycles_ne_nil_iff.trans h.components_ne_nil_iff.symm,
    h.components_ne_nil_iff.trans h.exists_flag_iff.symm, h.exists_flag_iff,
    CycleWalk.walk_onlyFirst _ _, ?_, fun k hk => h.exists_cycle_in_component hk⟩
  intro c hc
  have hcycle := (genuine_cycles hc).1.isCycle
  obtain ⟨k, hk, hin⟩ := h.cycle_in_component hcycle
  obtain ⟨v, hv⟩ := List.exists_mem_of_ne_nil _ hcycle.ne_nil
  exact ⟨k, ⟨hk, hin⟩, fun k' hk' => h.component_unique hk'.1 hk (hk'.2 v hv) (hin v hv)⟩

theorem walk_agrees_with_components_knot :
    ⟨[2, 3], ["b.go", "c.go"]⟩ ∈ (build knot).cycles ∧
      ∃! k, k ∈ (build knot).components ∧ ∀ v ∈ [2, 3], v ∈ k.nodes := by
  have hmem : ⟨[2, 3], ["b.go", "c.go"]⟩ ∈ (build knot).cycles := by decide +kernel
  exact ⟨hmem, (walk_agrees_with_components knot).2.2.2.2.2.1 _ hmem⟩

end LayerLint.Graph
