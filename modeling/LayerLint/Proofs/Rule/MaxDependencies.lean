import Mathlib.Data.Finset.Card
import Mathlib.Data.Finset.Dedup
import LayerLint.Proofs.Graph.Views
import LayerLint.Rule.MaxDependencies

/-!
# Dependencies told by the records

The records of a graph tell all there is to know about its dependencies: a node depends on the files
that its records name, itself left out. The rule on the number of dependencies counts those files.
-/

namespace LayerLint

theorem Keyed.toFinset_eraseDups_ne {α : Type} [DecidableEq α] (l : List α) (a : α) :
    (l.filter (· ≠ a)).eraseDups.toFinset = l.toFinset.erase a := by
  ext b
  simp [List.mem_eraseDups, and_comm]

namespace Graph

variable {project : Project} {u : Nat} {entry : ImportRecord}

/-! ## Records -/

theorem source_mem_filePaths (h : entry ∈ (build project).records.toList) :
    entry.source ∈ filePaths project.files := by
  obtain ⟨path, hpath, import_, _, rfl⟩ := mem_records_build.1 h
  rwa [paths_build, paths_ofFiles, List.mem_eraseDups] at hpath

theorem resolved_mem_paths (h : entry ∈ (build project).records.toList) {target : String}
    (htarget : target ∈ entry.resolved) : target ∈ (build project).paths := by
  obtain ⟨path, _, import_, _, rfl⟩ := mem_records_build.1 h
  exact resolveImport_mem htarget

/-! ## Counting files -/

/-- The files other than a node's own that its imports stand for. -/
def importedFiles (g : Graph) (u : Nat) : Finset String :=
  ((g.recordsOf u).filterMap ImportRecord.resolved).toFinset.erase (g.path u)

theorem outDegree_build (hu : u < (build project).size) :
    (build project).outDegree u = ((build project).importedFiles u).card := by
  have h := build_wellFormed project
  have hpaths : ((build project).deps u).map (build project).path =
      ((((build project).recordsOf u).filterMap ImportRecord.resolved).filter
        (· ≠ (build project).path u)).eraseDups := by
    rw [deps_build_records project hu]
    refine h.targetsOf_map_path hu fun entry hentry path hpath => ?_
    exact resolved_mem_paths (List.mem_of_mem_filter hentry) hpath
  -- No two dependencies have the same path, so their number is that of the paths.
  have hnodup : (((build project).deps u).map (build project).path).Nodup := by
    refine (h.deps_nodup u).map_on fun v hv w hw => ?_
    exact h.path_injective (h.deps_lt hv) (h.deps_lt hw)
  rw [outDegree, ← List.length_map (build project).path, ← List.toFinset_card_of_nodup hnodup,
    hpaths, Keyed.toFinset_eraseDups_ne, importedFiles]

end Graph

namespace MaxDependencies

theorem check_build (project : Project) (settings : Settings) (layers : LayerMap) :
    check settings ⟨Graph.build project, layers⟩ =
      ((Graph.build project).nodes.filter fun u =>
        settings.limit < ((Graph.build project).importedFiles u).card).map fun u =>
          violation settings ((Graph.build project).path u)
            ((Graph.build project).importedFiles u).card := by
  rw [check, ← List.filterMap_eq_map, List.filterMap_filter]
  refine List.filterMap_congr fun u hu => ?_
  dsimp only
  rw [Graph.outDegree_build (List.mem_range.1 hu)]
  by_cases hle : ((Graph.build project).importedFiles u).card ≤ settings.limit
  · simp [hle]
  · simp [hle, Nat.lt_of_not_le hle]

/-- For every project there is one record for each import of each node, in order, and none for a
path that is no file of the project. All targets are nodes, and the dependencies of a node are the
targets of its records, the node itself and repeats left out. The rule counts the distinct ones. -/
theorem dependencies_told_by_records (project : Project) :
    (Graph.build project).records.toList =
      (Graph.build project).nodes.flatMap (fun u =>
        (project.importsOf ((Graph.build project).path u)).map
          (Graph.recordOf (Graph.build project).paths ((Graph.build project).path u))) ∧
    (∀ entry ∈ (Graph.build project).records.toList,
      entry.source ∈ Graph.filePaths project.files ∧
      ∀ target ∈ entry.resolved,
        ∃ v < (Graph.build project).size, (Graph.build project).path v = target) ∧
    (Graph.build project).unresolved =
      (Graph.build project).records.toList.filter (fun entry => entry.resolved = none) ∧
    (∀ u < (Graph.build project).size,
      (Graph.build project).recordsOf u = (project.importsOf ((Graph.build project).path u)).map
        (Graph.recordOf (Graph.build project).paths ((Graph.build project).path u)) ∧
      (Graph.build project).deps u =
        ((((Graph.build project).recordsOf u).filterMap fun entry =>
          entry.resolved.bind (Graph.build project).node?).filter (· ≠ u)).eraseDups ∧
      (Graph.build project).outDegree u = ((Graph.build project).importedFiles u).card) ∧
    ∀ settings layers, check settings ⟨Graph.build project, layers⟩ =
      ((Graph.build project).nodes.filter fun u =>
        settings.limit < ((Graph.build project).importedFiles u).card).map fun u =>
          violation settings ((Graph.build project).path u)
            ((Graph.build project).importedFiles u).card := by
  refine ⟨?_, fun entry hentry => ⟨Graph.source_mem_filePaths hentry, fun target htarget => ?_⟩, ?_,
    fun u hu => ⟨Graph.recordsOf_build project hu, Graph.deps_build_records project hu,
      Graph.outDegree_build hu⟩, check_build project⟩
  · rw [Graph.records_build, ← Graph.nodes_map_path, List.flatMap_map]
  · exact Graph.mem_paths_iff.1 (Graph.resolved_mem_paths hentry htarget)
  · refine List.filter_congr fun entry _ => ?_
    cases entry.resolved <;> rfl

theorem dependencies_told_by_records_clutter :
    (Graph.build Graph.clutter).recordsOf 0 =
      [⟨"b.go", "a.go", some "lib/a.go"⟩, ⟨"b.go", "./c", some "c.go"⟩,
        ⟨"b.go", "lib/a.go", some "lib/a.go"⟩] ∧
    (Graph.build Graph.clutter).deps 0 = [1, 2] ∧
    (Graph.build Graph.clutter).outDegree 0 = ({"c.go", "lib/a.go"} : Finset String).card ∧
    ∃ v < (Graph.build Graph.clutter).size, (Graph.build Graph.clutter).path v = "lib/a.go" := by
  obtain ⟨_, htargets, _, hnodes, _⟩ := dependencies_told_by_records Graph.clutter
  obtain ⟨hrecords, hdeps, hcount⟩ := hnodes 0 (by decide +kernel)
  refine ⟨hrecords.trans (by decide +kernel), hdeps.trans (by decide +kernel),
    hcount.trans (by decide +kernel), ?_⟩
  exact (htargets ⟨"b.go", "a.go", some "lib/a.go"⟩ (by decide +kernel)).2 "lib/a.go" rfl

end MaxDependencies

end LayerLint
