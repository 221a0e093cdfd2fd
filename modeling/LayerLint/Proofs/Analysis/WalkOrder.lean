import LayerLint.Proofs.Analysis.PerPath
import LayerLint.Proofs.Analysis.RuleSet
import LayerLint.Proofs.Assoc
import LayerLint.Proofs.Graph.Alike
import LayerLint.Proofs.Rule.ByPath

/-!
# The order of the files

Every rule of a configuration finds the same at each path of two graphs that are alike and have no
cycles. So a report does not depend on the order in which the files of a project are listed, where
every import has one file that it can stand for and there are no cycles.
-/

namespace LayerLint

variable {g g' : Graph}

/-! ## Single rules -/

theorem Graph.Alike.samePerPath (h : Alike g g') {items items' : String → List Violation}
    (hitems : ∀ path, ∀ v ∈ items path, v.path = path)
    (hsame : ∀ path ∈ g.paths, items path = items' path) :
    SamePerPath (g.paths.flatMap items) (g'.paths.flatMap items') :=
  .of_paths h.wellFormed.paths_nodup h.wellFormed'.paths_nodup h.mem_paths_iff hitems hsame

theorem LayerBoundaries.samePerPath (h : g.Alike g') (severity : Severity) (layering : Layering) :
    SamePerPath ((rule severity).check ⟨g, layering.assign g⟩)
      ((rule severity).check ⟨g', layering.assign g'⟩) := by
  rw [check_eq h.wellFormed, check_eq h.wellFormed']
  refine h.samePerPath (fun path found hfound => ?_) fun path _ => by rw [h.dependencyPaths_eq]
  obtain ⟨_, _, hfound⟩ := List.mem_filterMap.1 hfound
  exact path_of_pathViolation hfound

theorem MaxDependencies.samePerPath (h : g.Alike g') (settings : Settings)
    (layers layers' : LayerMap) :
    SamePerPath (check settings ⟨g, layers⟩) (check settings ⟨g', layers'⟩) := by
  rw [check_eq h.wellFormed, check_eq h.wellFormed']
  refine h.samePerPath (fun path found hfound => ?_) fun path _ => by rw [h.dependencyPaths_eq]
  split at hfound
  · cases hfound
  · obtain rfl := List.mem_singleton.1 hfound
    rfl

theorem Forbidden.samePerPath (h : g.Alike g') (settings : Settings) (layers layers' : LayerMap) :
    SamePerPath (check settings ⟨g, layers⟩) (check settings ⟨g', layers'⟩) := by
  refine SamePerPath.flatMap fun text _ => ?_
  cases Entry.parse text with
  | error error =>
      -- What an entry that cannot be read is reported with does not come from the graph.
      exact .refl _
  | ok entry =>
      show SamePerPath (checkEntry settings g entry) (checkEntry settings g' entry)
      rw [checkEntry_eq h.wellFormed, checkEntry_eq h.wellFormed']
      refine h.samePerPath (fun path found hfound => ?_) fun path _ => by rw [h.dependencyPaths_eq]
      split at hfound
      · obtain ⟨_, _, rfl⟩ := List.mem_map.1 hfound
        rfl
      · cases hfound

theorem Orphans.samePerPath (h : g.Alike g') (settings : Settings) (layers layers' : LayerMap) :
    SamePerPath (check settings ⟨g, layers⟩) (check settings ⟨g', layers'⟩) := by
  rw [check_eq h.wellFormed, check_eq h.wellFormed']
  refine h.samePerPath (fun path found hfound => ?_) fun path _ => ?_
  · split at hfound
    · obtain rfl := List.mem_singleton.1 hfound
      rfl
    · cases hfound
  · simp only [h.mem_paths_iff, h.dependencyPaths_eq]

theorem MaxDepth.samePerPath (h : g.Alike g') (hacyclic : g.Acyclic) (settings : Settings)
    (layers layers' : LayerMap) :
    SamePerPath (check settings ⟨g, layers⟩) (check settings ⟨g', layers'⟩) := by
  obtain ⟨depth, hdepth, hcheck⟩ := exists_check_eq h.wellFormed hacyclic
  obtain ⟨depth', hdepth', hcheck'⟩ := exists_check_eq h.wellFormed' (h.acyclic hacyclic)
  rw [hcheck, hcheck']
  refine h.samePerPath (fun path found hfound => ?_) fun path hpath => ?_
  · split at hfound
    · obtain rfl := List.mem_singleton.1 hfound
      rfl
    · cases hfound
  · obtain ⟨u, hu, rfl⟩ := Graph.mem_paths_iff.1 hpath
    obtain ⟨u', hu', hsame⟩ := Graph.mem_paths_iff.1 ((h.mem_paths_iff _).1 hpath)
    have hlongest' := hdepth' u' hu'
    rw [hsame] at hlongest'
    rw [h.isLongest_unique hu hu' hsame (hdepth u hu) hlongest']

theorem NoCycles.samePerPath (h : g.Alike g') (hacyclic : g.Acyclic) (settings : Settings)
    (layers layers' : LayerMap) :
    SamePerPath (check settings ⟨g, layers⟩) (check settings ⟨g', layers'⟩) := by
  rw [check_eq_nil h.wellFormed hacyclic, check_eq_nil h.wellFormed' (h.acyclic hacyclic)]
  exact .refl []

/-! ## The rules of a configuration -/

theorem Config.samePerPath_ruleSet (config : Config) (h : g.Alike g') (hacyclic : g.Acyclic)
    (layering : Layering) :
    ∀ rule ∈ config.ruleSet, SamePerPath (rule.check ⟨g, layering.assign g⟩)
      (rule.check ⟨g', layering.assign g'⟩) := by
  refine config.forall_mem_ruleSet ?_ ?_ ?_ ?_ ?_ ?_
  · exact fun severity => LayerBoundaries.samePerPath h severity layering
  · exact fun settings => NoCycles.samePerPath h hacyclic settings _ _
  · exact fun settings => MaxDependencies.samePerPath h settings _ _
  · exact fun settings => MaxDepth.samePerPath h hacyclic settings _ _
  · exact fun settings => Forbidden.samePerPath h settings _ _
  · exact fun settings => Orphans.samePerPath h settings _ _

/-! ## Reports -/

theorem Project.exists_entry_of_mem {project : Project} {path : String} {import_ : Import}
    (h : import_ ∈ project.importsOf path) : ∃ entry ∈ project.imports, import_ ∈ entry.2 := by
  rw [importsOf] at h
  cases hget : project.imports.get? path with
  | none => simp [hget] at h
  | some imports =>
      rw [hget, Option.getD_some] at h
      exact ⟨(path, imports), Assoc.mem_of_get? hget, h⟩

namespace Analyzer

/-- The report on a project under the rules of a valid configuration is the same for every order of
its files, if no import can stand for two files by its ending and there are no cycles. -/
theorem analyze_ignores_walk_order (config : Config) (matcher : Matcher)
    {project project' : Project} (hvalid : config.validate = .ok ())
    (himports : ∀ path, project.imports.get? path = project'.imports.get? path)
    (hfiles : project.files.Perm project'.files)
    (hclear : ∀ path, ∀ import_ ∈ project.importsOf path,
      Unambiguous (Graph.build project).paths import_.specifier)
    (hacyclic : (Graph.build project).Acyclic) :
    ∃ analyzer, create config config.ruleSet matcher = .ok analyzer ∧
      analyzer.analyze project = analyzer.analyze project' := by
  have halike := Graph.alike_build himports hfiles hclear
  refine ⟨_, create_ok hvalid config.ruleSet matcher, ?_⟩
  have hviolations := sortByPath_runRule { rules := config.ruleSet, config, matcher }
    (config.samePerPath_ruleSet halike hacyclic { layers := config.layers, matcher })
  simp only [analyze, reportOn, prepare, layering, halike.size_eq, hviolations]

theorem analyze_ignores_walk_order_layered :
    ∃ analyzer, create strictConfig strictConfig.ruleSet Pattern.isMatch = .ok analyzer ∧
      analyzer.analyze (layeredProject
        ["core/model.go", "core/store.go", "web/page.go", "web/style.go", "web/view.go"]) =
      analyzer.analyze (layeredProject
        ["web/view.go", "web/page.go", "core/store.go", "web/style.go", "core/model.go"]) := by
  refine analyze_ignores_walk_order strictConfig Pattern.isMatch (by decide +kernel) (fun _ => rfl)
    (by decide +kernel) ?_ ((Graph.build_wellFormed _).acyclic_iff.2 (by decide +kernel))
  intro path import_ himport
  have hentries : ∀ entry ∈ (layeredProject []).imports, ∀ import_ ∈ entry.2,
      Unambiguous (Graph.build (layeredProject
        ["core/model.go", "core/store.go", "web/page.go", "web/style.go", "web/view.go"])).paths
        import_.specifier := by
    decide +kernel
  obtain ⟨entry, hentry, hmem⟩ := Project.exists_entry_of_mem himport
  exact hentries entry hentry import_ hmem

end Analyzer

end LayerLint
