import LayerLint.Proofs.Graph.Dependence
import LayerLint.Proofs.Rule.ByPath
import LayerLint.Proofs.Text.Split

/-!
# Files that nobody imports

The rule on orphans counts edges. What it reports is told here by the imports that were noted and by
the names of the files.
-/

namespace LayerLint

variable {project : Project} {path : String} {u v : Nat}

namespace Graph

/-- No file depends on a path exactly if all noted imports of it are its own. -/
theorem forall_notMem_dependencyPaths_iff :
    (∀ other ∈ (build project).paths, path ∉ (build project).dependencyPaths other) ↔
      ∀ entry ∈ (build project).records.toList, entry.source ≠ path →
        entry.resolved ≠ some path := by
  constructor
  · intro hnone entry hentry hsource hresolved
    obtain ⟨other, hother, import_, himport, rfl⟩ := mem_records_build.1 hentry
    refine hnone other hother ?_
    rw [dependencyPaths_build project hother, List.mem_eraseDups, List.mem_filter]
    exact ⟨List.mem_filterMap.2 ⟨import_, himport, hresolved⟩, decide_eq_true (Ne.symm hsource)⟩
  · intro hnone other hother hmem
    rw [dependencyPaths_build project hother, List.mem_eraseDups, List.mem_filter] at hmem
    obtain ⟨hmem, hne⟩ := hmem
    obtain ⟨import_, himport, hresolved⟩ := List.mem_filterMap.1 hmem
    exact hnone _ (mem_records_build.2 ⟨other, hother, import_, himport, rfl⟩)
      (Ne.symm (of_decide_eq_true hne)) hresolved

end Graph

namespace Orphans

variable {settings : Settings} {g : Graph}

/-- A file that is imported by no other, and that is no entry point, test, configuration or
documentation. -/
structure IsOrphan (settings : Settings) (g : Graph) (path : String) : Prop where
  unimported : ∀ entry ∈ g.records.toList, entry.source ≠ path → entry.resolved ≠ some path
  unmatched : ∀ pattern ∈ settings.entryPoints, settings.matcher path pattern = false
  not_entry : Path.baseName path ∉ entryNames
  not_test : ∀ marker ∈ testMarkers, ¬marker.toList <:+: path.toList
  not_config : ∀ start ∈ configNames, ¬start.toList <+: (Path.baseName path).toList
  not_doc : ∀ ending ∈ docExtensions, ¬ending.toList <:+ (Path.baseName path).toList

theorem isEntryPoint_eq_false_iff : isEntryPoint settings path = false ↔
    (∀ pattern ∈ settings.entryPoints, settings.matcher path pattern = false) ∧
      Path.baseName path ∉ entryNames ∧
      ∀ marker ∈ testMarkers, ¬marker.toList <:+: path.toList := by
  simp only [isEntryPoint, Bool.or_eq_false_iff, List.any_eq_false, Bool.not_eq_true,
    Text.contains_iff, List.contains_eq_mem, decide_eq_false_iff_not, and_assoc]

theorem isConfigOrDoc_eq_false_iff : isConfigOrDoc path = false ↔
    (∀ start ∈ configNames, ¬start.toList <+: (Path.baseName path).toList) ∧
      ∀ ending ∈ docExtensions, ¬ending.toList <:+ (Path.baseName path).toList := by
  simp only [isConfigOrDoc, Bool.or_eq_false_iff, List.any_eq_false, Text.startsWith_iff,
    Text.endsWith_iff]

theorem isOrphan_iff : IsOrphan settings g path ↔
    (∀ entry ∈ g.records.toList, entry.source ≠ path → entry.resolved ≠ some path) ∧
      (!isEntryPoint settings path && !isConfigOrDoc path) = true := by
  rw [Bool.and_eq_true, Bool.not_eq_true', Bool.not_eq_true', isEntryPoint_eq_false_iff,
    isConfigOrDoc_eq_false_iff]
  constructor
  · rintro ⟨himport, hpattern, hentry, htest, hconfig, hdoc⟩
    exact ⟨himport, ⟨hpattern, hentry, htest⟩, hconfig, hdoc⟩
  · rintro ⟨himport, ⟨hpattern, hentry, htest⟩, hconfig, hdoc⟩
    exact ⟨himport, hpattern, hentry, htest, hconfig, hdoc⟩

instance : Decidable (IsOrphan settings g path) :=
  decidable_of_iff _ isOrphan_iff.symm

theorem check_build (project : Project) (settings : Settings) (layers : LayerMap) :
    check settings ⟨Graph.build project, layers⟩ =
      ((Graph.build project).paths.filter (IsOrphan settings (Graph.build project))).map
        (violation settings.severity) := by
  rw [check_eq (Graph.build_wellFormed project), List.map_eq_flatMap, Keyed.flatMap_filter]
  refine List.flatMap_congr fun path _ => ?_
  simp only [decide_eq_true_eq, isOrphan_iff, Graph.forall_notMem_dependencyPaths_iff]

theorem map_path_check (project : Project) (settings : Settings) (layers : LayerMap) :
    (check settings ⟨Graph.build project, layers⟩).map Violation.path =
      (Graph.build project).paths.filter (IsOrphan settings (Graph.build project)) := by
  rw [check_build, List.map_map]
  exact List.map_id _

/-- A dependency makes an import that is not the file's own. -/
theorem not_isOrphan_of_dependsOn (h : (Graph.build project).DependsOn u v) :
    ¬IsOrphan settings (Graph.build project) ((Graph.build project).path v) := by
  have hwf := Graph.build_wellFormed project
  intro horphan
  have hsource : (Graph.build project).path u ∈ (Graph.build project).paths :=
    Graph.mem_paths_iff.2 ⟨u, hwf.source_lt h, rfl⟩
  exact Graph.forall_notMem_dependencyPaths_iff.2 horphan.unimported _ hsource
    (hwf.mem_dependencyPaths h)

/-- With more entry points, the orphans are those that no added pattern matches. -/
theorem isOrphan_entryPoints_iff {patterns : List String} (h : settings.entryPoints ⊆ patterns) :
    IsOrphan { settings with entryPoints := patterns } g path ↔
      IsOrphan settings g path ∧ ∀ pattern ∈ patterns, settings.matcher path pattern = false := by
  constructor
  · intro horphan
    refine ⟨{ horphan with unmatched := ?_ }, horphan.unmatched⟩
    exact fun pattern hpattern => horphan.unmatched pattern (h hpattern)
  · rintro ⟨horphan, hpatterns⟩
    exact { horphan with unmatched := hpatterns }

/-- The rule reports the files that no other file imports and that no exemption covers, each once
and in walk order. More entry points take away the reports on files that they match, and no others.
A file on a cycle is not reported. -/
theorem orphans_have_no_importers (project : Project) (settings : Settings) (layers : LayerMap) :
    check settings ⟨Graph.build project, layers⟩ =
      ((Graph.filePaths project.files).eraseDups.filter
        (IsOrphan settings (Graph.build project))).map (violation settings.severity) ∧
    ((check settings ⟨Graph.build project, layers⟩).map Violation.path).Nodup ∧
    (∀ patterns, settings.entryPoints ⊆ patterns →
      check { settings with entryPoints := patterns } ⟨Graph.build project, layers⟩ =
        (check settings ⟨Graph.build project, layers⟩).filter fun found =>
          ∀ pattern ∈ patterns, settings.matcher found.path pattern = false) ∧
    ∀ nodes, (Graph.build project).IsCycle nodes → ∀ v ∈ nodes,
      (Graph.build project).path v ∉
        (check settings ⟨Graph.build project, layers⟩).map Violation.path := by
  refine ⟨?_, ?_, fun patterns hpatterns => ?_, fun nodes hcycle v hv hreported => ?_⟩
  · rw [check_build, Graph.paths_build, Graph.paths_ofFiles]
  · rw [map_path_check]
    exact (Graph.build_wellFormed project).paths_nodup.filter _
  · rw [check_build, check_build, List.filter_map, List.filter_filter]
    refine congrArg (List.map _) (List.filter_congr fun path _ => ?_)
    rw [Function.comp_apply, ← Bool.decide_and, decide_eq_decide,
      isOrphan_entryPoints_iff hpatterns, and_comm]
    rfl
  · rw [map_path_check, List.mem_filter] at hreported
    obtain ⟨u, _, huv⟩ := Relation.TransGen.tail'_iff.1 (hcycle.transGen hv)
    exact not_isOrphan_of_dependsOn huv (of_decide_eq_true hreported.2)

/-- An example: a file that imports itself, an entry point, two files that import each other, and a
test that imports nothing. -/
def outskirts : Project :=
  { files := [.directory "lib", .ofPath "lib/loop.go", .ofPath "cmd/server.go", .ofPath "a.go",
      .ofPath "b.go", .ofPath "lib/loop.go", .ofPath "a_test.go"]
    imports :=
      [("lib/loop.go", [.ofSpecifier "loop.go"]), ("a.go", [.ofSpecifier "b.go"]),
        ("b.go", [.ofSpecifier "./a"])] }

theorem orphans_have_no_importers_outskirts :
    check {} ⟨Graph.build outskirts, ⟨[], #[]⟩⟩ =
      [violation .warning "lib/loop.go", violation .warning "cmd/server.go"] ∧
    check { entryPoints := ["cmd/**"] } ⟨Graph.build outskirts, ⟨[], #[]⟩⟩ =
      [violation .warning "lib/loop.go"] ∧
    (Graph.build outskirts).IsCycle [2, 3] ∧
    (Graph.build outskirts).path 3 ∉
      (check {} ⟨Graph.build outskirts, ⟨[], #[]⟩⟩).map Violation.path := by
  obtain ⟨hcheck, _, hmore, hcycle⟩ := orphans_have_no_importers outskirts {} ⟨[], #[]⟩
  have hreports : check {} ⟨Graph.build outskirts, ⟨[], #[]⟩⟩ =
      [violation .warning "lib/loop.go", violation .warning "cmd/server.go"] :=
    hcheck.trans (by decide +kernel)
  have hcircle : (Graph.build outskirts).IsCycle [2, 3] := by decide +kernel
  refine ⟨hreports, ?_, hcircle, hcycle _ hcircle 3 (by decide)⟩
  rw [hmore ["cmd/**"] (List.nil_subset _), hreports]
  decide +kernel

end Orphans

end LayerLint
