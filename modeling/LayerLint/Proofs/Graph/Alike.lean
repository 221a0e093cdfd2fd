import LayerLint.Proofs.DepthWalk.Longest
import LayerLint.Proofs.Graph.Views

/-!
# Graphs that differ in their numbering

Two graphs are alike if they have the same files and each file depends on the same files in the same
order. The order in which a project lists its files settles the numbers of the nodes and nothing
else, as long as each import has one file that it can stand for.
-/

namespace LayerLint.Graph

/-- The same files with the same dependencies, perhaps under other numbers. -/
structure Alike (g g' : Graph) : Prop where
  wellFormed : g.WellFormed
  wellFormed' : g'.WellFormed
  mem_paths_iff : ∀ path, path ∈ g.paths ↔ path ∈ g'.paths
  dependencyPaths_eq : ∀ path, g.dependencyPaths path = g'.dependencyPaths path

variable {g g' : Graph} {u v u' k : Nat}

theorem Alike.symm (h : Alike g g') : Alike g' g :=
  ⟨h.wellFormed', h.wellFormed, fun path => (h.mem_paths_iff path).symm,
    fun path => (h.dependencyPaths_eq path).symm⟩

theorem Alike.size_eq (h : Alike g g') : g.size = g'.size := by
  rw [← length_paths, ← length_paths]
  exact ((List.perm_ext_iff_of_nodup h.wellFormed.paths_nodup h.wellFormed'.paths_nodup).2
    h.mem_paths_iff).length_eq

/-! ## Projects -/

theorem WellFormed.dependencyPaths_of_not_mem (h : g.WellFormed) {path : String}
    (hpath : path ∉ g.paths) : g.dependencyPaths path = [] := by
  cases hnode : g.node? path with
  | none => rw [dependencyPaths, hnode]
  | some u => exact absurd (Graph.mem_paths_iff.2 ⟨u, h.node?_eq_some_iff.1 hnode⟩) hpath

/-- Projects that list the same files in another order have graphs that are alike, unless an import
can stand for several files. -/
theorem alike_build {project project' : Project}
    (himports : ∀ path, project.imports.get? path = project'.imports.get? path)
    (hfiles : project.files.Perm project'.files)
    (hclear : ∀ path, ∀ import_ ∈ project.importsOf path,
      Unambiguous (build project).paths import_.specifier) :
    Alike (build project) (build project') := by
  have h := build_wellFormed project
  have h' := build_wellFormed project'
  have hpaths : ∀ path, path ∈ (build project).paths ↔ path ∈ (build project').paths := by
    intro path
    rw [paths_build, paths_build, paths_ofFiles, paths_ofFiles, List.mem_eraseDups,
      List.mem_eraseDups]
    exact ((hfiles.filter _).map _).mem_iff
  refine ⟨h, h', hpaths, fun path => ?_⟩
  by_cases hpath : path ∈ (build project).paths
  · have hsame : project'.importsOf path = project.importsOf path := by
      rw [Project.importsOf, Project.importsOf, himports]
    rw [dependencyPaths_build project hpath,
      dependencyPaths_build project' ((hpaths path).1 hpath), hsame]
    congr 2
    exact List.filterMap_congr fun import_ himport =>
      resolveImport_congr hpaths (hclear path import_ himport) path
  · rw [h.dependencyPaths_of_not_mem hpath,
      h'.dependencyPaths_of_not_mem fun hmem => hpath ((hpaths path).2 hmem)]

/-! ## Chains and cycles -/

/-- A way through one graph goes through the same files in the other. -/
theorem Alike.steps (h : Alike g g') (hsteps : Steps g.deps k u v) (hu' : u' < g'.size)
    (hpath : g'.path u' = g.path u) :
    ∃ v' < g'.size, g'.path v' = g.path v ∧ Steps g'.deps k u' v' := by
  induction hsteps generalizing u' with
  | refl u => exact ⟨u', hu', hpath, .refl u'⟩
  | @head k u w v hw _ ih =>
      have hmem : g.path w ∈ g'.dependencyPaths (g'.path u') := by
        rw [hpath, ← h.dependencyPaths_eq]
        exact h.wellFormed.mem_dependencyPaths hw
      rw [h.wellFormed'.dependencyPaths_path hu'] at hmem
      obtain ⟨w', hw', hsame⟩ := List.mem_map.1 hmem
      obtain ⟨v', hv', hlast, hrest⟩ := ih (h.wellFormed'.deps_lt hw') hsame
      exact ⟨v', hv', hlast, .head hw' hrest⟩

theorem Alike.hasChain_iff (h : Alike g g') (hu : u < g.size) (hu' : u' < g'.size)
    (hpath : g'.path u' = g.path u) : g.HasChain u k ↔ g'.HasChain u' k := by
  constructor
  · rintro ⟨_, hsteps⟩
    obtain ⟨v', _, _, hsteps'⟩ := h.steps hsteps hu' hpath
    exact ⟨v', hsteps'⟩
  · rintro ⟨_, hsteps⟩
    obtain ⟨v, _, _, hsteps'⟩ := h.symm.steps hsteps hu hpath.symm
    exact ⟨v, hsteps'⟩

theorem Alike.isLongest_unique (h : Alike g g') (hu : u < g.size) (hu' : u' < g'.size)
    (hpath : g'.path u' = g.path u) {d d' : Nat} (hd : g.IsLongest u d)
    (hd' : g'.IsLongest u' d') : d = d' := by
  have hiff : ∀ k, g.HasChain u k ↔ g'.HasChain u' k := fun _ => h.hasChain_iff hu hu' hpath
  exact Nat.le_antisymm (hd'.2 ((hiff d).1 hd.1)) (hd.2 ((hiff d').2 hd'.1))

theorem Alike.acyclic (h : Alike g g') (hacyclic : g.Acyclic) : g'.Acyclic := by
  intro nodes hcycle
  obtain ⟨v, hv⟩ := List.exists_mem_of_ne_nil _ hcycle.ne_nil
  obtain ⟨w, hvw, hwv⟩ := Relation.TransGen.head'_iff.1 (hcycle.transGen hv)
  have hsize : v < g'.size := h.wellFormed'.source_lt hvw
  obtain ⟨k, hback⟩ := exists_steps hwv
  -- The way round leads from the file of `v` back to it, in the other graph as well.
  obtain ⟨u, hu, hpath⟩ : ∃ u < g.size, g.path u = g'.path v :=
    Graph.mem_paths_iff.1 ((h.mem_paths_iff _).2 (Graph.mem_paths_iff.2 ⟨v, hsize, rfl⟩))
  obtain ⟨last, hlast, hsame, hround⟩ := h.symm.steps (.head hvw hback) hu hpath
  obtain rfl := h.wellFormed.path_injective hlast hu (hsame.trans hpath.symm)
  cases hround with
  | head hstep hrest => exact (hacyclic.cycleFree _).no_way_back hstep hrest.reflTransGen

end LayerLint.Graph
