import LayerLint.Proofs.Figure.Drawn
import LayerLint.Proofs.Rule.ByPath

/-!
# The boundaries between layers

Whether an edge crosses a boundary is asked of the layers of two paths, of the map of the nodes, by
the rule and by a figure. All of them give the same answer.
-/

namespace LayerLint

variable {g : Graph} {u v : Nat}

theorem LayerMap.isViolation_eq (map : LayerMap) (u v : Nat) :
    map.isViolation u v = !Layer.mayDepend (map.layerOf u) (map.layerOf v) := by
  rw [isViolation]
  cases map.layerOf u with
  | none => rfl
  | some source => cases map.layerOf v <;> rfl

theorem Layering.isViolation_assign (layering : Layering) (hu : u < g.size) (hv : v < g.size) :
    (layering.assign g).isViolation u v =
      !Layer.mayDepend (layering.layerAt (g.path u)) (layering.layerAt (g.path v)) := by
  rw [LayerMap.isViolation_eq, layering.layerOf_assign hu, layering.layerOf_assign hv]

namespace LayerBoundaries

theorem map_checkEdge (severity : Severity) (scene : Scene) (e : Nat × Nat) :
    (checkEdge severity scene e).map (fun found => (found.path, found.context)) =
      if scene.layers.isViolation e.1 e.2 then
        some (scene.graph.path e.1, some ("imported: " ++ scene.graph.path e.2))
      else none := by
  rw [checkEdge, LayerMap.isViolation]
  cases scene.layers.layerOf e.1 with
  | none => rfl
  | some source =>
      cases scene.layers.layerOf e.2 with
      | none => rfl
      | some target =>
          show Option.map _ (if source.allows target.name = true then none else some _) =
            if (!source.allows target.name) = true then _ else _
          cases source.allows target.name <;> rfl

/-- The rule reports each edge that crosses a boundary, once and in the order of the edges. -/
theorem map_check (severity : Severity) (scene : Scene) :
    ((rule severity).check scene).map (fun found => (found.path, found.context)) =
      (scene.graph.edges.toList.filter fun e => scene.layers.isViolation e.1 e.2).map fun e =>
        (scene.graph.path e.1, some ("imported: " ++ scene.graph.path e.2)) := by
  calc ((rule severity).check scene).map (fun found => (found.path, found.context))
      = scene.graph.edges.toList.filterMap fun e =>
          (checkEdge severity scene e).map fun found => (found.path, found.context) :=
        List.map_filterMap
    _ = scene.graph.edges.toList.filterMap fun e =>
          if scene.layers.isViolation e.1 e.2 then
            some (scene.graph.path e.1, some ("imported: " ++ scene.graph.path e.2))
          else none :=
        List.filterMap_congr fun e _ => map_checkEdge severity scene e
    _ = _ := by rw [← List.filterMap_filter, ← List.filterMap_eq_map, Function.comp_def]

/-- The four ways to ask whether an edge crosses a boundary agree, for every project, all layers and
every way of matching paths. -/
theorem boundary_checks_agree (project : Project) (layering : Layering) :
    (∀ u v, (u, v) ∈ (Graph.build project).edges →
      (layering.assign (Graph.build project)).isViolation u v =
        !Layer.mayDepend (layering.layerAt ((Graph.build project).path u))
          (layering.layerAt ((Graph.build project).path v))) ∧
    (∀ severity, ((rule severity).check
        ⟨Graph.build project, layering.assign (Graph.build project)⟩).map
          (fun found => (found.path, found.context)) =
      ((Graph.build project).edges.toList.filter fun e =>
          (layering.assign (Graph.build project)).isViolation e.1 e.2).map fun e =>
        ((Graph.build project).path e.1,
          some ("imported: " ++ (Graph.build project).path e.2))) ∧
    ∀ options : DrawOptions, options.showCycles = false → options.highlightViolations = true →
      options.onlyLayer = none → options.maxDepth.getD 0 = 0 →
        ∀ u, (Figure.draw (Graph.build project) (layering.assign (Graph.build project))
            options).edgesFrom u =
          ((Graph.build project).deps u).map fun v =>
            (v, if (layering.assign (Graph.build project)).isViolation u v then .violation
              else .normal) := by
  have h := Graph.build_wellFormed project
  refine ⟨?_, fun severity => map_check severity _, ?_⟩
  · intro u v hedge
    have hdep := h.mem_edges.1 hedge
    exact layering.isViolation_assign (h.source_lt hdep) (h.deps_lt hdep)
  · intro options hcycles hviolations hlayer hdepth u
    rw [Figure.edgesFrom_of_all h (Figure.drawnNodes_eq_nodes hlayer hdepth)]
    simp only [Figure.edgeKind_without_cycles hcycles hviolations]

/-- An example: a file imports one of a layer that its own may not depend on, and one of a second
layer with the name of its own. -/
def crossing : Project :=
  { files := ["core/model.go", "web/view.go", "base/log.go"].map .ofPath
    imports := [("core/model.go", [.ofSpecifier "web/view.go", .ofSpecifier "../base/log"])] }

/-- An example: layers of which two have the same name. -/
def twofold : Layering :=
  { layers := [⟨"core", "core/**", []⟩, ⟨"web", "web/**", ["core"]⟩, ⟨"core", "base/**", ["*"]⟩] }

theorem boundary_checks_agree_crossing :
    (0, 1) ∈ (Graph.build crossing).edges ∧
    (twofold.assign (Graph.build crossing)).isViolation 0 1 = true ∧
    (Figure.draw (Graph.build crossing) (twofold.assign (Graph.build crossing))
      { showCycles := false }).edgesFrom 0 = [(1, .violation), (2, .normal)] := by
  have hedge : (0, 1) ∈ (Graph.build crossing).edges := by decide +kernel
  obtain ⟨hviolation, _, hdrawn⟩ := boundary_checks_agree crossing twofold
  refine ⟨hedge, ?_, ?_⟩
  · rw [hviolation 0 1 hedge]
    decide +kernel
  · rw [hdrawn { showCycles := false } rfl rfl rfl rfl 0]
    decide +kernel

end LayerBoundaries

end LayerLint
