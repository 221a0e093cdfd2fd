import LayerLint.Proofs.Graph.Bound
import LayerLint.Proofs.Graph.Views

/-!
# What determines a graph

A graph follows from its files and its records. So two projects with the same nodes have the same
graph exactly if each node spells the same imports.
-/

namespace LayerLint.Graph

variable {project project' : Project} {u : Nat}

/-! ## Nodes -/

/-- An entry that makes no node can be left out. -/
theorem ofFiles_skip (before behind : List SourceFile) {file : SourceFile}
    (h : file.isDirectory = true ∨ file.path ∈ filePaths before) :
    ofFiles (before ++ file :: behind) = ofFiles (before ++ behind) := by
  have hskip : (ofFiles before).addFile file = ofFiles before := by
    rcases (ofFiles before).addFile_cases file with ⟨hsame, _⟩ | ⟨hfile, hnew, _⟩
    · exact hsame
    · rw [paths_ofFiles, List.mem_eraseDups] at hnew
      rcases h with hdir | hold
      · rw [hdir] at hfile
        cases hfile
      · exact absurd hold hnew
  have hfold : ∀ files, ofFiles (before ++ files) = files.foldl addFile (ofFiles before) :=
    fun _ => List.foldl_append
  rw [hfold, hfold, List.foldl_cons, hskip]

/-! ## Files and records -/

theorem eq_of_parts {g g' : Graph} (hfiles : g.files = g'.files)
    (hdependencies : g.dependencies = g'.dependencies) (hedges : g.edges = g'.edges)
    (hrecords : g.records = g'.records) : g = g' := by
  rcases g with ⟨_, _, _, _⟩
  rcases g' with ⟨_, _, _, _⟩
  cases hfiles
  cases hdependencies
  cases hedges
  cases hrecords
  rfl

/-- The graph of a project is settled by its files and its records. -/
theorem build_eq_of_records (hfiles : (build project).files = (build project').files)
    (hrecords : (build project).records = (build project').records) :
    build project = build project' := by
  have h := build_wellFormed project
  have h' := build_wellFormed project'
  have hsize : (build project).size = (build project').size := size_congr hfiles
  have hdeps : ∀ u < (build project').size, (build project).deps u = (build project').deps u := by
    intro u hu
    rw [deps_build_records project (hsize ▸ hu), deps_build_records project' hu, recordsOf,
      recordsOf, targetsOf, targetsOf, path_congr hfiles, node?_congr hfiles, hrecords]
  refine eq_of_parts hfiles ?_ ?_ hrecords
  · rw [← Array.toList_inj, h.dependencies_eq, h'.dependencies_eq, nodes, nodes, hsize]
    exact List.map_congr_left fun u hu => hdeps u (List.mem_range.1 hu)
  · rw [← Array.toList_inj, h.edges_eq, h'.edges_eq, nodes, nodes, hsize]
    exact List.flatMap_congr fun u hu => by rw [hdeps u (List.mem_range.1 hu)]

/-! ## Specifiers -/

/-- A record keeps the specifier of its import, and nothing else of it. -/
theorem map_recordOf (known : List String) (source : String) (imports : List Import) :
    imports.map (recordOf known source) = (imports.map Import.specifier).map fun raw =>
      ⟨source, raw, resolveImport known raw source⟩ := by
  rw [List.map_map]
  rfl

theorem raw_recordsOf_build (hu : u < (build project).size) :
    ((build project).recordsOf u).map ImportRecord.raw =
      (project.importsOf ((build project).path u)).map Import.specifier := by
  rw [recordsOf_build project hu, List.map_map]
  rfl

section SameNodes

variable (hnodes : ofFiles project.files = ofFiles project'.files)
include hnodes

theorem files_build_congr : (build project).files = (build project').files := by
  rw [(recorded_build project).files_eq, (recorded_build project').files_eq, hnodes]

theorem recordsOf_build_congr (hu : u < (build project).size)
    (hsame : (project.importsOf ((build project).path u)).map Import.specifier =
      (project'.importsOf ((build project).path u)).map Import.specifier) :
    (build project).recordsOf u = (build project').recordsOf u := by
  have hfiles := files_build_congr hnodes
  rw [recordsOf_build project hu, recordsOf_build project' (size_congr hfiles ▸ hu),
    ← path_congr hfiles, ← paths_congr hfiles, map_recordOf, map_recordOf, hsame]

theorem deps_build_congr (hu : u < (build project).size)
    (hsame : (project.importsOf ((build project).path u)).map Import.specifier =
      (project'.importsOf ((build project).path u)).map Import.specifier) :
    (build project).deps u = (build project').deps u := by
  have hfiles := files_build_congr hnodes
  rw [deps_build_records project hu, deps_build_records project' (size_congr hfiles ▸ hu),
    recordsOf_build_congr hnodes hu hsame, targetsOf, targetsOf, node?_congr hfiles]

/-- Projects with the same nodes have the same graph if each node spells the same imports, and only
then. -/
theorem build_eq_iff : build project = build project' ↔ ∀ path ∈ (build project).paths,
    (project.importsOf path).map Import.specifier =
      (project'.importsOf path).map Import.specifier := by
  have hfiles := files_build_congr hnodes
  constructor
  · intro hgraph path hpath
    obtain ⟨u, hu, rfl⟩ := mem_paths_iff.1 hpath
    rw [← raw_recordsOf_build hu, hgraph, raw_recordsOf_build (size_congr hfiles ▸ hu)]
  · intro hsame
    refine build_eq_of_records hfiles ?_
    rw [← Array.toList_inj, records_build, records_build, ← paths_congr hfiles]
    refine List.flatMap_congr fun path hpath => ?_
    rw [map_recordOf, map_recordOf, hsame path hpath]

end SameNodes

end LayerLint.Graph
