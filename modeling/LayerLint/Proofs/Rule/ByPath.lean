import LayerLint.Proofs.Graph.Views
import LayerLint.Proofs.Rule.MaxDepth
import LayerLint.Rule.Forbidden
import LayerLint.Rule.LayerBoundaries
import LayerLint.Rule.MaxDependencies
import LayerLint.Rule.NoCycles
import LayerLint.Rule.Orphans

/-!
# Rules path by path

What a rule reports is told here by the paths of the files and the paths they depend on, without the
numbers of nodes. The rule on depth is told so for graphs without cycles, on which the rule on
cycles is silent.
-/

namespace LayerLint

variable {g : Graph} {u v : Nat}

namespace Graph

/-- A look at each node and its dependencies is a look at each path and the paths it depends on. -/
theorem WellFormed.flatMap_nodes {β : Type} (h : g.WellFormed)
    (items : String → List String → List β) :
    (g.nodes.flatMap fun u => items (g.path u) ((g.deps u).map g.path)) =
      g.paths.flatMap fun path => items path (g.dependencyPaths path) := by
  rw [← nodes_map_path, List.flatMap_map]
  refine List.flatMap_congr fun u hu => ?_
  rw [h.dependencyPaths_path (List.mem_range.1 hu)]

theorem WellFormed.fanIn_eq_zero_iff (h : g.WellFormed) (hv : v < g.size) :
    g.fanIn v = 0 ↔ ∀ path ∈ g.paths, g.path v ∉ g.dependencyPaths path := by
  rw [h.fanIn_eq, List.countP_eq_zero]
  constructor
  · intro hnone path hpath hmem
    obtain ⟨u, hu, rfl⟩ := mem_paths_iff.1 hpath
    rw [h.dependencyPaths_path hu] at hmem
    obtain ⟨w, hw, hpath⟩ := List.mem_map.1 hmem
    obtain rfl := h.path_injective (h.deps_lt hw) hv hpath
    exact hnone u (List.mem_range.2 hu) (decide_eq_true hw)
  · intro hnone u hu huv
    have hu := List.mem_range.1 hu
    exact hnone _ (mem_paths_iff.2 ⟨u, hu, rfl⟩)
      (h.mem_dependencyPaths (of_decide_eq_true huv))

end Graph

theorem Layering.join_positions_assign (layering : Layering) (hu : u < g.size) :
    (layering.assign g).positions[u]?.join = layering.position (g.path u) := by
  have hfile : g.files[u]? = some g.files[u] := Array.getElem?_eq_getElem hu
  simp [assign, Graph.path, hfile]

theorem Layering.layerOf_assign (layering : Layering) (hu : u < g.size) :
    (layering.assign g).layerOf u = layering.layerAt (g.path u) := by
  rw [LayerMap.layerOf, layering.join_positions_assign hu]
  rfl

namespace LayerBoundaries

/-- The violation of an import, by the layers of the two paths. -/
def pathViolation (severity : Severity) (layering : Layering) (importing imported : String) :
    Option Violation := do
  let source ← layering.layerAt importing
  let target ← layering.layerAt imported
  if source.allows target.name then none
  else some (violation severity importing imported source target)

theorem checkEdge_eq (severity : Severity) (layering : Layering) (hu : u < g.size)
    (hv : v < g.size) :
    checkEdge severity ⟨g, layering.assign g⟩ (u, v) =
      pathViolation severity layering (g.path u) (g.path v) := by
  rw [checkEdge, layering.layerOf_assign hu, layering.layerOf_assign hv]
  rfl

theorem check_eq (h : g.WellFormed) (severity : Severity) (layering : Layering) :
    (rule severity).check ⟨g, layering.assign g⟩ = g.paths.flatMap fun path =>
      (g.dependencyPaths path).filterMap (pathViolation severity layering path) := by
  rw [← h.flatMap_nodes fun path targets =>
    targets.filterMap (pathViolation severity layering path)]
  simp only [rule, h.edges_eq, List.filterMap_flatMap, List.filterMap_map]
  refine List.flatMap_congr fun u hu => List.filterMap_congr fun v hv => ?_
  exact checkEdge_eq severity layering (List.mem_range.1 hu) (h.deps_lt hv)

theorem path_of_pathViolation {severity : Severity} {layering : Layering}
    {importing imported : String} {found : Violation}
    (h : pathViolation severity layering importing imported = some found) :
    found.path = importing := by
  obtain ⟨source, _, h⟩ := Option.bind_eq_some_iff.1 h
  obtain ⟨target, _, h⟩ := Option.bind_eq_some_iff.1 h
  split at h
  · cases h
  · obtain rfl := Option.some.inj h
    rfl

end LayerBoundaries

theorem MaxDependencies.check_eq (h : g.WellFormed) (settings : Settings) (layers : LayerMap) :
    check settings ⟨g, layers⟩ = g.paths.flatMap fun path =>
      if (g.dependencyPaths path).length ≤ settings.limit then []
      else [violation settings path (g.dependencyPaths path).length] := by
  rw [← h.flatMap_nodes fun path targets =>
    if targets.length ≤ settings.limit then [] else [violation settings path targets.length]]
  simp only [check, List.filterMap_eq_flatMap_toList, List.length_map, Graph.outDegree]
  exact List.flatMap_congr fun u _ => apply_ite Option.toList _ _ _

theorem Forbidden.checkEntry_eq (h : g.WellFormed) (settings : Settings) (entry : Entry) :
    checkEntry settings g entry = g.paths.flatMap fun path =>
      if settings.matcher path entry.source then
        ((g.dependencyPaths path).filter (settings.matcher · entry.target)).map
          (edgeViolation settings.severity entry path)
      else [] := by
  rw [← h.flatMap_nodes fun path targets =>
    if settings.matcher path entry.source then
      (targets.filter (settings.matcher · entry.target)).map
        (edgeViolation settings.severity entry path)
    else []]
  simp only [checkEntry, Keyed.flatMap_filter, List.filter_map, List.map_map]
  rfl

theorem Orphans.check_eq (h : g.WellFormed) (settings : Settings) (layers : LayerMap) :
    check settings ⟨g, layers⟩ = g.paths.flatMap fun path =>
      if (∀ other ∈ g.paths, path ∉ g.dependencyPaths other) ∧
          (!isEntryPoint settings path && !isConfigOrDoc path) = true then
        [violation settings.severity path]
      else [] := by
  have hnodes : (g.nodes.filter fun node => g.fanIn node == 0).map g.path =
      g.paths.filter fun path => ∀ other ∈ g.paths, path ∉ g.dependencyPaths other := by
    rw [← Graph.nodes_map_path, List.filter_map]
    congr 1
    refine List.filter_congr fun v hv => ?_
    rw [Bool.eq_iff_iff, beq_iff_eq, h.fanIn_eq_zero_iff (List.mem_range.1 hv),
      ← Graph.nodes_map_path]
    simp
  simp only [check, hnodes, List.filter_filter]
  rw [List.map_eq_flatMap, Keyed.flatMap_filter]
  refine List.flatMap_congr fun path _ => ?_
  simp [and_comm]

theorem MaxDepth.exists_check_eq (h : g.WellFormed) (hacyclic : g.Acyclic) :
    ∃ depth : String → Nat, (∀ v < g.size, g.IsLongest v (depth (g.path v))) ∧
      ∀ settings layers, check settings ⟨g, layers⟩ = g.paths.flatMap fun path =>
        if settings.limit < depth path then [violation settings path ⟨0, depth path, false⟩]
        else [] := by
  obtain ⟨depth, hlongest, hentries⟩ := exists_depths h hacyclic
  have hnode : ∀ v < g.size, depth ((g.node? (g.path v)).getD 0) = depth v := fun v hv => by
    rw [h.node?_path hv, Option.getD_some]
  refine ⟨fun path => depth ((g.node? path).getD 0), fun v hv => ?_, fun settings layers => ?_⟩
  · simp only [hnode v hv]
    exact hlongest v hv
  · rw [check_of_depths hentries fun _ => Bool.false_and _, List.map_eq_flatMap,
      Keyed.flatMap_filter, ← Graph.nodes_map_path, List.flatMap_map]
    refine List.flatMap_congr fun v hv => ?_
    -- A violation does not tell the number of the node.
    simp only [hnode v (List.mem_range.1 hv), decide_eq_true_eq]
    rfl

theorem NoCycles.check_eq_nil (h : g.WellFormed) (hacyclic : g.Acyclic) (settings : Settings)
    (layers : LayerMap) : check settings ⟨g, layers⟩ = [] := by
  have hnone : ¬∃ nodes, g.IsCycle nodes := fun ⟨nodes, hcycle⟩ => hacyclic nodes hcycle
  have hcycles : g.cycles = [] := by
    rwa [← h.cycles_ne_nil_iff, not_not] at hnone
  have hcomponents : g.components = [] := by
    rwa [← h.components_ne_nil_iff, not_not] at hnone
  simp [check, hcycles, hcomponents]

end LayerLint
