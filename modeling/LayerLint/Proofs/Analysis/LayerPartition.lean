import LayerLint.Proofs.Analysis.RuleSet
import LayerLint.Proofs.Config.Validation
import LayerLint.Proofs.Rule.LayerBoundaries

/-!
# The layers of a project's files

A file belongs to the first layer that its path matches, by place. The members of a layer and the
boundaries between layers are told by name. Both say the same where no two layers have one name, so
the layers of a valid configuration divide the files that have one.
-/

namespace LayerLint

variable {layering : Layering} {g : Graph} {map : LayerMap} {layer source target : Layer}
  {path name : String} {node u v i j : Nat}

/-! ## First matches -/

/-- The layer stands at a place and is the first one that a path matches. -/
structure Layering.Takes (layering : Layering) (path : String) (i : Nat) (layer : Layer) :
    Prop where
  getElem?_eq : layering.layers[i]? = some layer
  accepts : layering.matcher path layer.pattern = true
  first : ∀ k < i, ∀ earlier, layering.layers[k]? = some earlier →
    layering.matcher path earlier.pattern = false

theorem Layering.position_eq_some_iff :
    layering.position path = some i ↔ ∃ layer, layering.Takes path i layer := by
  rw [position, List.findIdx?_eq_some_iff_getElem]
  constructor
  · rintro ⟨hi, haccepts, hfirst⟩
    refine ⟨layering.layers[i], List.getElem?_eq_getElem hi, haccepts, ?_⟩
    intro k hk earlier hearlier
    obtain ⟨_, rfl⟩ := List.getElem?_eq_some_iff.1 hearlier
    simpa using hfirst k hk
  · rintro ⟨layer, htakes⟩
    obtain ⟨hi, rfl⟩ := List.getElem?_eq_some_iff.1 htakes.getElem?_eq
    refine ⟨hi, htakes.accepts, fun k hk => ?_⟩
    simpa using htakes.first k hk _ (List.getElem?_eq_getElem (Nat.lt_trans hk hi))

theorem Layering.layerAt_eq_some_iff :
    layering.layerAt path = some layer ↔ ∃ i, layering.Takes path i layer := by
  simp only [layerAt, Option.bind_eq_some_iff, position_eq_some_iff]
  constructor
  · rintro ⟨i, ⟨layer', htakes⟩, hlayer⟩
    obtain rfl := Option.some.inj (htakes.getElem?_eq.symm.trans hlayer)
    exact ⟨i, htakes⟩
  · rintro ⟨i, htakes⟩
    exact ⟨i, ⟨layer, htakes⟩, htakes.getElem?_eq⟩

theorem Layering.size_positions_assign : (layering.assign g).positions.size = g.size :=
  Array.size_map

theorem LayerMap.lt_of_layerOf (h : map.layerOf node = some layer) : node < map.positions.size := by
  by_contra hnode
  have hnone : map.positions[node]? = none := Array.getElem?_eq_none (Nat.le_of_not_lt hnode)
  simp [layerOf, hnone] at h

theorem Layering.layerOf_assign_eq_some_iff :
    (layering.assign g).layerOf node = some layer ↔
      node < g.size ∧ ∃ i, layering.Takes (g.path node) i layer := by
  constructor
  · intro h
    have hnode : node < g.size := size_positions_assign ▸ LayerMap.lt_of_layerOf h
    rw [layerOf_assign layering hnode] at h
    exact ⟨hnode, layerAt_eq_some_iff.1 h⟩
  · rintro ⟨hnode, htakes⟩
    rw [layerOf_assign layering hnode]
    exact layerAt_eq_some_iff.2 htakes

theorem Layering.nameOf_assign_eq_some_iff :
    (layering.assign g).nameOf node = some name ↔
      node < g.size ∧ ∃ i layer, layering.Takes (g.path node) i layer ∧ layer.name = name := by
  rw [LayerMap.nameOf, Option.map_eq_some_iff]
  simp only [layerOf_assign_eq_some_iff]
  constructor
  · rintro ⟨layer, ⟨hnode, i, htakes⟩, hname⟩
    exact ⟨hnode, i, layer, htakes, hname⟩
  · rintro ⟨hnode, i, layer, htakes, hname⟩
    exact ⟨layer, ⟨hnode, i, htakes⟩, hname⟩

/-! ## Members -/

namespace LayerMap

theorem mem_members_iff : node ∈ map.members name ↔ map.nameOf node = some name := by
  rw [members, List.mem_filter, List.mem_range, beq_iff_eq]
  refine ⟨And.right, fun h => ⟨?_, h⟩⟩
  obtain ⟨layer, hlayer, _⟩ := Option.map_eq_some_iff.1 h
  exact lt_of_layerOf hlayer

theorem members_pairwise (map : LayerMap) (name : String) :
    (map.members name).Pairwise (· < ·) :=
  List.pairwise_lt_range.filter _

theorem members_disjoint {name' : String} (h : name ≠ name') :
    (map.members name).Disjoint (map.members name') := by
  intro node hname hname'
  rw [mem_members_iff] at hname hname'
  exact h (Option.some.inj (hname.symm.trans hname'))

/-- The nodes that have a layer. -/
def assignedNodes (map : LayerMap) : List Nat :=
  (List.range map.positions.size).filter fun node => (map.positions[node]?.join).isSome

theorem length_assignedNodes (map : LayerMap) : map.assignedNodes.length = map.assignedCount := by
  have hpositions : map.positions.toList =
      (List.range map.positions.size).map fun node => map.positions[node]?.join := by
    refine List.ext_getElem? fun i => ?_
    by_cases hi : i < map.positions.size <;> simp [hi]
  rw [assignedNodes, ← List.countP_eq_length_filter, assignedCount, hpositions, List.countP_map]
  rfl

end LayerMap

theorem Layering.mem_assignedNodes_assign :
    node ∈ (layering.assign g).assignedNodes ↔
      node < g.size ∧ ∃ i layer, layering.Takes (g.path node) i layer := by
  rw [LayerMap.assignedNodes, List.mem_filter, List.mem_range, size_positions_assign]
  refine and_congr_right fun hnode => ?_
  simp only [layering.join_positions_assign hnode, Option.isSome_iff_exists, position_eq_some_iff]

/-! ## Boundaries -/

theorem Layer.allows_eq_false_iff {other : String} :
    layer.allows other = false ↔
      layer.name ≠ other ∧ "*" ∉ layer.dependsOn ∧ other ∉ layer.dependsOn := by
  rw [allows, Bool.or_eq_false_iff, beq_eq_false_iff_ne, List.any_eq_false]
  refine and_congr_right fun _ => ⟨fun hnone => ⟨fun hany => ?_, fun hother => ?_⟩, ?_⟩
  · exact hnone "*" hany (by simp [anyName])
  · exact hnone other hother (by simp)
  · rintro ⟨hany, hother⟩ name hname hallowed
    rcases Bool.or_eq_true_iff.1 hallowed with heq | heq
    · obtain rfl := eq_of_beq heq
      exact hother hname
    · obtain rfl : name = "*" := eq_of_beq heq
      exact hany hname

theorem Layer.mayDepend_eq_false_iff {a b : Option Layer} :
    mayDepend a b = false ↔ ∃ source target, a = some source ∧ b = some target ∧
      source.allows target.name = false := by
  cases a with
  | none => simp [mayDepend]
  | some source => cases b <;> simp [mayDepend]

/-! ## Layers of different names -/

section Nodup

variable (hnodup : (layering.layers.map Layer.name).Nodup)

include hnodup

theorem Layering.pairwise_disjoint_members (map : LayerMap) :
    layering.layers.Pairwise fun a b => (map.members a.name).Disjoint (map.members b.name) :=
  (List.pairwise_map.1 hnodup).imp LayerMap.members_disjoint

/-- The members of all layers, put together, are the nodes that have one. -/
theorem Layering.flatMap_members_perm (g : Graph) :
    (layering.layers.flatMap fun layer => (layering.assign g).members layer.name).Perm
      (layering.assign g).assignedNodes := by
  have hmembers : (layering.layers.flatMap fun layer =>
      (layering.assign g).members layer.name).Nodup := by
    refine List.nodup_flatMap.2 ⟨fun layer _ => ?_, pairwise_disjoint_members hnodup _⟩
    exact ((layering.assign g).members_pairwise layer.name).imp Nat.ne_of_lt
  have hassigned : (layering.assign g).assignedNodes.Nodup := List.nodup_range.filter _
  refine (List.perm_ext_iff_of_nodup hmembers hassigned).2 fun node => ?_
  simp only [List.mem_flatMap, LayerMap.mem_members_iff, nameOf_assign_eq_some_iff,
    mem_assignedNodes_assign]
  constructor
  · rintro ⟨_, _, hnode, i, layer, htakes, _⟩
    exact ⟨hnode, i, layer, htakes⟩
  · rintro ⟨hnode, i, layer, htakes⟩
    exact ⟨layer, List.mem_of_getElem? htakes.getElem?_eq, hnode, i, layer, htakes, rfl⟩

theorem Layering.sum_length_members (g : Graph) :
    (layering.layers.map fun layer => ((layering.assign g).members layer.name).length).sum =
      (layering.assign g).assignedCount := by
  rw [← LayerMap.length_assignedNodes, ← (flatMap_members_perm hnodup g).length_eq,
    List.length_flatMap]

theorem Layering.Takes.name_eq_iff (hsource : layering.Takes path i source) {path' : String}
    (htarget : layering.Takes path' j target) : source.name = target.name ↔ i = j := by
  have hi : (layering.layers.map Layer.name)[i]? = some source.name := by
    rw [List.getElem?_map, hsource.getElem?_eq]
    rfl
  have hj : (layering.layers.map Layer.name)[j]? = some target.name := by
    rw [List.getElem?_map, htarget.getElem?_eq]
    rfl
  rw [← List.getElem?_inj (List.getElem?_eq_some_iff.1 hi).1 hnodup, hi, hj, Option.some_inj]

theorem Layering.isViolation_assign_iff (hu : u < g.size) (hv : v < g.size) :
    (layering.assign g).isViolation u v = true ↔ ∃ i j source target,
      layering.Takes (g.path u) i source ∧ layering.Takes (g.path v) j target ∧ i ≠ j ∧
      "*" ∉ source.dependsOn ∧ target.name ∉ source.dependsOn := by
  rw [isViolation_assign layering hu hv, Bool.not_eq_true', Layer.mayDepend_eq_false_iff]
  constructor
  · rintro ⟨source, target, hsource, htarget, hforbidden⟩
    obtain ⟨i, hi⟩ := layerAt_eq_some_iff.1 hsource
    obtain ⟨j, hj⟩ := layerAt_eq_some_iff.1 htarget
    obtain ⟨hname, hallowed⟩ := Layer.allows_eq_false_iff.1 hforbidden
    exact ⟨i, j, source, target, hi, hj, (hi.name_eq_iff hnodup hj).not.1 hname, hallowed⟩
  · rintro ⟨i, j, source, target, hi, hj, hplaces, hallowed⟩
    refine ⟨source, target, layerAt_eq_some_iff.2 ⟨i, hi⟩, layerAt_eq_some_iff.2 ⟨j, hj⟩, ?_⟩
    exact Layer.allows_eq_false_iff.2 ⟨(hi.name_eq_iff hnodup hj).not.2 hplaces, hallowed⟩

end Nodup

/-! ## Valid configurations -/

namespace Analyzer

/-- Under a valid configuration the members of a layer's name are the nodes whose path matches that
layer first. They stand in order, no node is a member of two layers, and all members together are
the nodes that have a layer. An edge crosses a boundary if it leads from one layer to another that
the first does not list. -/
theorem layers_divide_files (config : Config) (hvalid : config.validate = .ok ())
    (rules : List Rule) (matcher : Matcher) (project : Project) :
    ∃ analyzer scene, create config rules matcher = .ok analyzer ∧
      analyzer.prepare project = scene ∧
      (∀ node name,
        (node ∈ scene.layers.members name ↔ scene.layers.nameOf node = some name) ∧
        (scene.layers.nameOf node = some name ↔ node < scene.graph.size ∧ ∃ i layer,
          Layering.Takes ⟨config.layers, matcher⟩ (scene.graph.path node) i layer ∧
          layer.name = name)) ∧
      (config.layers.Pairwise fun a b =>
        (scene.layers.members a.name).Disjoint (scene.layers.members b.name)) ∧
      (∀ name, (scene.layers.members name).Pairwise (· < ·)) ∧
      (config.layers.map fun layer => (scene.layers.members layer.name).length).sum =
        scene.layers.assignedCount ∧
      ∀ u v, (u, v) ∈ scene.graph.edges →
        (scene.layers.isViolation u v = true ↔ ∃ i j source target,
          Layering.Takes ⟨config.layers, matcher⟩ (scene.graph.path u) i source ∧
          Layering.Takes ⟨config.layers, matcher⟩ (scene.graph.path v) j target ∧
          i ≠ j ∧ "*" ∉ source.dependsOn ∧ target.name ∉ source.dependsOn) := by
  have hnodup : ((⟨config.layers, matcher⟩ : Layering).layers.map Layer.name).Nodup :=
    (Config.validate_eq_ok_iff.1 hvalid).names_nodup
  have hwell := Graph.build_wellFormed project
  refine ⟨_, _, create_ok hvalid rules matcher, rfl,
    fun node name => ⟨LayerMap.mem_members_iff, Layering.nameOf_assign_eq_some_iff⟩,
    Layering.pairwise_disjoint_members hnodup _, LayerMap.members_pairwise _,
    Layering.sum_length_members hnodup _, fun u v hedge => ?_⟩
  have hdep := hwell.mem_edges.1 hedge
  exact Layering.isViolation_assign_iff hnodup (hwell.source_lt hdep) (hwell.deps_lt hdep)

/-- An example: layers of which one lies within the next. -/
def nestedConfig : Config :=
  { layers :=
      [⟨"api", "internal/api/**", ["core"]⟩, ⟨"core", "internal/**", []⟩,
        ⟨"tools", "tools/**", ["*"]⟩] }

/-- An example: a file that matches two of those layers, one that imports it, and one of no
layer. -/
def nestedProject : Project :=
  { files := ["internal/api/page.go", "internal/store.go", "main.go"].map .ofPath
    imports :=
      [("internal/api/page.go", [.ofSpecifier "internal/store.go"]),
        ("internal/store.go", [.ofSpecifier "./api/page"])] }

theorem layers_divide_files_nested :
    nestedConfig.validate = .ok () ∧ (1, 0) ∈ (Graph.build nestedProject).edges ∧
    ∃ analyzer scene, create nestedConfig [] Pattern.isMatch = .ok analyzer ∧
      analyzer.prepare nestedProject = scene ∧ 0 ∈ scene.layers.members "api" ∧
      0 ∉ scene.layers.members "core" ∧ scene.layers.isViolation 1 0 = true := by
  have hvalid : nestedConfig.validate = .ok () := by decide +kernel
  obtain ⟨hedge, hpage, hstore⟩ : (1, 0) ∈ (Graph.build nestedProject).edges ∧
      (Graph.build nestedProject).path 0 = "internal/api/page.go" ∧
      (Graph.build nestedProject).path 1 = "internal/store.go" := by decide +kernel
  obtain ⟨analyzer, scene, hcreate, rfl, hnodes, hdisjoint, _, _, hedges⟩ :=
    layers_divide_files nestedConfig hvalid [] Pattern.isMatch nestedProject
  obtain rfl := Except.ok.inj ((create_ok hvalid [] Pattern.isMatch).symm.trans hcreate)
  have hapi : Layering.Takes ⟨nestedConfig.layers, Pattern.isMatch⟩
      ((Graph.build nestedProject).path 0) 0 ⟨"api", "internal/api/**", ["core"]⟩ := by
    rw [hpage]
    exact ⟨rfl, by decide +kernel, nofun⟩
  have hcore : Layering.Takes ⟨nestedConfig.layers, Pattern.isMatch⟩
      ((Graph.build nestedProject).path 1) 1 ⟨"core", "internal/**", []⟩ := by
    rw [hstore]
    refine ⟨rfl, by decide +kernel, fun k hk earlier hearlier => ?_⟩
    obtain rfl := Nat.lt_one_iff.1 hk
    obtain rfl := Option.some.inj hearlier
    decide +kernel
  have hmember := ((hnodes 0 "api").1.trans (hnodes 0 "api").2).2
    ⟨by decide +kernel, 0, _, hapi, rfl⟩
  refine ⟨hvalid, hedge, _, _, hcreate, rfl, hmember, fun hother => ?_, ?_⟩
  · exact (List.pairwise_cons.1 hdisjoint).1 _ List.mem_cons_self hmember hother
  · exact (hedges 1 0 hedge).2
      ⟨1, 0, _, _, hcore, hapi, by decide, List.not_mem_nil, List.not_mem_nil⟩

end Analyzer

end LayerLint
