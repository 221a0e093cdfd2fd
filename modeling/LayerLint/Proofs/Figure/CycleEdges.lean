import LayerLint.Proofs.CycleWalk.Agreement
import LayerLint.Proofs.CycleWalk.Kept
import LayerLint.Proofs.Figure.Drawn

/-!
# Edges drawn as parts of cycles

A figure marks the edges of the cycles that the walk reports. Those are the edges on cycles that go
along no edge passed over, and there is one on every cycle, but there can be others on cycles that
are not marked.
-/

namespace LayerLint.Figure

open CycleWalk (PassesOver)

variable {g : Graph} {map : LayerMap} {options : DrawOptions} {u v : Nat}

/-! ## Marked edges -/

theorem addsPairs_markEdge : Graph.AddsPairs markEdge := by
  refine ⟨fun targets edge => by simp [markEdge], fun targets edge u w => ?_⟩
  obtain ⟨source, target⟩ := edge
  simp only [markEdge, Array.getElem?_modify, Prod.mk.injEq]
  by_cases hu : source = u
  · subst hu
    by_cases hlt : source < targets.size
    · by_cases hknown : target ∈ targets[source]
      · -- An edge that is marked already is not marked again.
        simp only [Array.getElem?_eq_getElem hlt, Option.map_some, Option.getD_some,
          List.contains_iff_mem, hknown, if_true]
        constructor
        · exact Or.inl
        · rintro (hw | ⟨⟨_, rfl⟩, _⟩)
          · exact hw
          · exact hknown
      · simp [hlt, hknown, or_comm]
    · simp [hlt]
  · simp [hu, Ne.symm hu]

theorem mem_cycleTargetsOf (h : g.WellFormed) :
    v ∈ (cycleTargetsOf g)[u]?.getD [] ↔ ∃ c ∈ g.cycles, (u, v) ∈ c.edges := by
  have hfold : cycleTargetsOf g =
      (g.cycles.flatMap Cycle.edges).foldl markEdge (Array.replicate g.size []) :=
    List.foldl_flatMap.symm
  rw [hfold, addsPairs_markEdge.mem_foldl_replicate, List.mem_flatMap]
  intro hmem
  obtain ⟨c, hc, hedge⟩ := List.mem_flatMap.1 hmem
  exact h.source_lt ((Graph.isCycle_iff_edges.1 (Graph.genuine_cycles hc).1.isCycle).2 _ hedge)

theorem edgeKind_eq_cycle_iff (h : g.WellFormed) (hshow : options.showCycles = true) :
    (draw g map options).edgeKind u v = .cycle ↔ ∃ c ∈ g.cycles, (u, v) ∈ c.edges := by
  have htargets : (draw g map options).cycleTargets = cycleTargetsOf g := by simp [draw, hshow]
  have hoptions : (draw g map options).options.showCycles = true := hshow
  rw [← mem_cycleTargetsOf h, ← List.contains_iff_mem, edgeKind, hoptions, htargets, Bool.true_and]
  constructor
  · intro hkind
    by_contra hnot
    rw [if_neg hnot] at hkind
    split at hkind <;> cases hkind
  · exact fun hmem => if_pos hmem

/-- Which edges are on a cycle that goes along no edge passed over. -/
theorem exists_cycle_kept_iff (h : g.WellFormed) :
    (∃ c ∈ g.cycles, (u, v) ∈ c.edges) ↔
      ∃ nodes, g.IsCycle nodes ∧ (u, v) ∈ (Cycle.ofNodes g nodes).edges ∧
        ∀ e ∈ (Cycle.ofNodes g nodes).edges, ¬PassesOver g (fun _ => true) e.1 e.2 := by
  refine (CycleWalk.exists_mem_walk_iff h).trans (exists_congr fun nodes => ?_)
  constructor
  · rintro ⟨hmem, hkept⟩
    refine ⟨Graph.isCycle_iff_edges.2 ⟨?_, fun e he => (hkept e he).1⟩, hmem,
      fun e he => (hkept e he).2.2⟩
    exact List.ne_nil_of_mem (Graph.mem_of_mem_edges hmem).1
  · rintro ⟨hcycle, hmem, hkept⟩
    exact ⟨hmem, fun e he => ⟨(Graph.isCycle_iff_edges.1 hcycle).2 e he, rfl, hkept e he⟩⟩

/-- An edge is drawn as part of a cycle exactly if it lies on a cycle that goes along no edge that
the walk passes over. Every cycle whose nodes are drawn has such an edge. -/
theorem cycle_edges_avoid_passed (project : Project) (map : LayerMap) (options : DrawOptions)
    (hshow : options.showCycles = true) :
    (∀ u v, (v, EdgeKind.cycle) ∈ (draw (Graph.build project) map options).edgesFrom u ↔
      v ∈ drawnNodes (Graph.build project) map options ∧
        ∃ nodes, (Graph.build project).IsCycle nodes ∧
          (u, v) ∈ (Cycle.ofNodes (Graph.build project) nodes).edges ∧
          ∀ e ∈ (Cycle.ofNodes (Graph.build project) nodes).edges,
            ¬PassesOver (Graph.build project) (fun _ => true) e.1 e.2) ∧
    ∀ nodes, (Graph.build project).IsCycle nodes →
      (∀ w ∈ nodes, w ∈ drawnNodes (Graph.build project) map options) →
        ∃ e ∈ (Cycle.ofNodes (Graph.build project) nodes).edges,
          (e.2, EdgeKind.cycle) ∈ (draw (Graph.build project) map options).edgesFrom e.1 := by
  have h := Graph.build_wellFormed project
  constructor
  · intro u v
    rw [mem_edgesFrom_iff, edgeKind_eq_cycle_iff h hshow, exists_cycle_kept_iff h]
    constructor
    · exact fun ⟨_, hdrawn, hcycle⟩ => ⟨hdrawn, hcycle⟩
    · rintro ⟨hdrawn, nodes, hcycle, hmem, hkept⟩
      exact ⟨(Graph.isCycle_iff_edges.1 hcycle).2 _ hmem, hdrawn, nodes, hcycle, hmem, hkept⟩
  · intro nodes hcycle hdrawn
    obtain ⟨c, hc, e, hclosing, hmem⟩ := h.exists_closing_edge hcycle
    refine ⟨e, hmem, mem_edgesFrom_iff.2 ⟨(Graph.isCycle_iff_edges.1 hcycle).2 e hmem, ?_, ?_⟩⟩
    · exact hdrawn e.2 (Graph.mem_of_mem_edges hmem).2
    · have hedge := Graph.mem_edges_of_closingPair (g := Graph.build project) hclosing
      exact (edgeKind_eq_cycle_iff h hshow).2 ⟨c, hc, hedge⟩

/-- An example: a circle of two files, and a way around one of its edges. -/
def detour : Project :=
  { files := ["a.go", "b.go", "c.go"].map .ofPath
    imports :=
      [("a.go", [.ofSpecifier "b.go", .ofSpecifier "c.go"]), ("b.go", [.ofSpecifier "a.go"]),
        ("c.go", [.ofSpecifier "b.go"])] }

theorem cycle_edges_avoid_passed_detour :
    (∃ nodes, (Graph.build detour).IsCycle nodes ∧
      (0, 1) ∈ (Cycle.ofNodes (Graph.build detour) nodes).edges ∧
      ∀ e ∈ (Cycle.ofNodes (Graph.build detour) nodes).edges,
        ¬PassesOver (Graph.build detour) (fun _ => true) e.1 e.2) ∧
    (Graph.build detour).IsCycle [0, 2, 1] ∧
    ∃ e ∈ [(0, 2), (2, 1), (1, 0)],
      (e.2, EdgeKind.cycle) ∈ (draw (Graph.build detour) ⟨[], #[]⟩ {}).edgesFrom e.1 := by
  have hcycle : (Graph.build detour).IsCycle [0, 2, 1] := by decide +kernel
  obtain ⟨hmarked, hsome⟩ := cycle_edges_avoid_passed detour ⟨[], #[]⟩ {} rfl
  exact ⟨((hmarked 0 1).1 (by decide +kernel)).2, hcycle,
    hsome [0, 2, 1] hcycle (by decide +kernel)⟩

theorem cycle_edge_unmarked_detour :
    (Graph.build detour).IsCycle [0, 2, 1] ∧
    (0, 2) ∈ (Cycle.ofNodes (Graph.build detour) [0, 2, 1]).edges ∧
    (2, EdgeKind.normal) ∈ (draw (Graph.build detour) ⟨[], #[]⟩ {}).edgesFrom 0 := by
  decide +kernel

end LayerLint.Figure
