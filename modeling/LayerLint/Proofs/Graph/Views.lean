import Mathlib.Algebra.GroupWithZero.Nat
import LayerLint.Proofs.Graph.Records

/-!
# The two views of a graph

A graph keeps its dependencies twice, as a list for each node and as one list of edges. For every
project both say the same, and the nodes are its files in the order they first occur.
-/

namespace LayerLint.Graph

variable {g : Graph} {u v : Nat}

/-! ## Nodes -/

/-- The paths of the entries that are files. -/
def filePaths (files : List SourceFile) : List String :=
  (files.filter (!·.isDirectory)).map SourceFile.path

theorem filePaths_append (files files' : List SourceFile) :
    filePaths (files ++ files') = filePaths files ++ filePaths files' := by
  simp [filePaths]

/-- The nodes are the files, each at its first occurrence. -/
theorem paths_ofFiles (files : List SourceFile) :
    (ofFiles files).paths = (filePaths files).eraseDups := by
  induction files using List.reverseRecOn with
  | nil => rfl
  | append_singleton files file ih =>
      have hstep : ofFiles (files ++ [file]) = (ofFiles files).addFile file := by
        simp [ofFiles]
      have hmem : file.path ∈ (ofFiles files).paths ↔ file.path ∈ filePaths files := by
        rw [ih, List.mem_eraseDups]
      rw [hstep, filePaths_append]
      rcases (ofFiles files).addFile_cases file with ⟨hsame, hskip⟩ | ⟨hfile, hnew, hadd⟩
      · rw [hsame, ih]
        cases hdir : file.isDirectory with
        | true => simp [filePaths, hdir]
        | false =>
            have hold := hmem.1 (hskip.resolve_left (by simp [hdir]))
            simpa [filePaths, hdir] using (Keyed.eraseDups_concat_mem hold).symm
      · rw [hmem] at hnew
        have hpaths :
            ((ofFiles files).addFile file).paths = (ofFiles files).paths ++ [file.path] := by
          rw [hadd]
          simp [paths]
        rw [hpaths, ih]
        simpa [filePaths, hfile] using (Keyed.eraseDups_concat_new hnew).symm

/-! ## Edges -/

theorem WellFormed.hasEdge_iff (h : g.WellFormed) : g.hasEdge u v = true ↔ v ∈ g.deps u := by
  rw [hasEdge, List.contains_iff_mem, Array.mem_toList_iff, h.mem_edges]

theorem WellFormed.edges_nodup (h : g.WellFormed) : g.edges.toList.Nodup := by
  rw [h.edges_eq, List.nodup_flatMap]
  constructor
  · intro u _
    exact (h.deps_nodup u).map fun v w heq => (Prod.mk.inj heq).2
  · refine List.nodup_range.imp fun {u w} hne e hu hw => ?_
    obtain ⟨v, _, rfl⟩ := List.mem_map.1 hu
    obtain ⟨v', _, heq⟩ := List.mem_map.1 hw
    exact hne (Prod.mk.inj heq).1.symm

theorem WellFormed.size_edges (h : g.WellFormed) :
    g.edges.size = (g.nodes.map g.outDegree).sum := by
  rw [← Array.length_toList, h.edges_eq, List.length_flatMap]
  simp only [List.length_map]
  rfl

/-- The edges into a node are as many as the nodes that depend on it, since none of them lists it
twice. -/
theorem WellFormed.fanIn_eq (h : g.WellFormed) (v : Nat) :
    g.fanIn v = g.nodes.countP fun u => v ∈ g.deps u := by
  rw [fanIn, h.edges_eq]
  induction g.nodes with
  | nil => rfl
  | cons u nodes ih =>
      have hown : ((g.deps u).map (u, ·)).countP (·.2 == v) = if v ∈ g.deps u then 1 else 0 := by
        rw [List.countP_map]
        exact (h.deps_nodup u).count
      rw [List.flatMap_cons, List.countP_append, ih, hown, List.countP_cons]
      simp [Nat.add_comm]

/-! ## Graphs of projects -/

/-- For every project the nodes are the files in the order they first occur, each path has one node,
and the dependency lists and the edge list tell the same edges. -/
theorem build_views_agree (project : Project) :
    (build project).nodes.map (build project).path = (filePaths project.files).eraseDups ∧
    ((build project).nodes.map (build project).path).Nodup ∧
    (∀ path node, (build project).node? path = some node ↔
      node < (build project).size ∧ (build project).path node = path) ∧
    (∀ u, (∀ v ∈ (build project).deps u, v < (build project).size ∧ v ≠ u) ∧
      ((build project).deps u).Nodup) ∧
    (build project).edges.toList =
      (build project).nodes.flatMap (fun u => ((build project).deps u).map (u, ·)) ∧
    (∀ u v, (build project).hasEdge u v = true ↔ v ∈ (build project).deps u) ∧
    (build project).edges.size = ((build project).nodes.map (build project).outDegree).sum ∧
    ∀ v, (build project).fanIn v =
      (build project).nodes.countP fun u => v ∈ (build project).deps u := by
  have h := build_wellFormed project
  rw [nodes_map_path]
  refine ⟨?_, h.paths_nodup, fun path node => h.node?_eq_some_iff, fun u => ⟨?_, h.deps_nodup u⟩,
    h.edges_eq, fun u v => h.hasEdge_iff, h.size_edges, h.fanIn_eq⟩
  · rw [paths_build, paths_ofFiles]
  · exact fun v hv => ⟨h.deps_lt hv, h.deps_ne hv⟩

/-- An example: a directory, a file listed twice, and imports that repeat or lead back. -/
def clutter : Project :=
  { files := [.directory "lib", .ofPath "b.go", .ofPath "lib/a.go", .ofPath "b.go", .ofPath "c.go"]
    imports :=
      [("b.go", [.ofSpecifier "a.go", .ofSpecifier "./c", .ofSpecifier "lib/a.go"]),
        ("lib/a.go", [.ofSpecifier "../lib/a", .ofSpecifier "c.go", .ofSpecifier "d.go"])] }

theorem build_views_agree_clutter :
    (build clutter).nodes.map (build clutter).path = ["b.go", "lib/a.go", "c.go"] ∧
      2 ∈ (build clutter).deps 1 ∧ 2 ≠ 1 ∧ (build clutter).hasEdge 1 2 = true := by
  obtain ⟨hpaths, _, _, hdeps, _, hedge, _⟩ := build_views_agree clutter
  have hmem : 2 ∈ (build clutter).deps 1 := by decide +kernel
  exact ⟨hpaths.trans (by decide +kernel), hmem, ((hdeps 1).1 2 hmem).2, (hedge 1 2).2 hmem⟩

end LayerLint.Graph
