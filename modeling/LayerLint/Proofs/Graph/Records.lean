import LayerLint.Proofs.Graph.Build
import LayerLint.Proofs.Graph.Resolve
import LayerLint.Proofs.Keyed

/-!
# What the building records

Every import of every file is noted, in order, with the file it stands for, and the dependencies of
a node are the nodes that its records lead to.
-/

namespace LayerLint.Graph

/-- The nodes other than a node that records lead to, each once and in the order of the records. -/
def targetsOf (g : Graph) (node : Nat) (records : List ImportRecord) : List Nat :=
  ((records.filterMap fun entry => entry.resolved.bind g.node?).filter (· ≠ node)).eraseDups

variable {base g : Graph} {node : Nat} {records : List ImportRecord} {entry : ImportRecord}

theorem targetsOf_concat_same (h : ∀ target, entry.resolved.bind g.node? = some target →
      target = node ∨ target ∈ g.targetsOf node records) :
    g.targetsOf node (records ++ [entry]) = g.targetsOf node records := by
  unfold targetsOf at h ⊢
  rw [List.filterMap_append, List.filter_append]
  cases htarget : entry.resolved.bind g.node? with
  | none => simp [htarget]
  | some target =>
      by_cases hself : target = node
      · simp [htarget, hself]
      · have hmem := List.mem_eraseDups.1 ((h target htarget).resolve_left hself)
        simpa [htarget, hself] using Keyed.eraseDups_concat_mem hmem

theorem targetsOf_concat_new {target : Nat} (htarget : entry.resolved.bind g.node? = some target)
    (hself : target ≠ node) (hnew : target ∉ g.targetsOf node records) :
    g.targetsOf node (records ++ [entry]) = g.targetsOf node records ++ [target] := by
  unfold targetsOf at hnew ⊢
  rw [List.mem_eraseDups] at hnew
  rw [List.filterMap_append, List.filter_append]
  simpa [htarget, hself] using Keyed.eraseDups_concat_new hnew

/-! ## Graphs with the same files -/

section SameFiles

variable {g' : Graph} (h : g.files = g'.files)
include h

theorem size_congr : g.size = g'.size := by
  rw [size, size, h]

theorem path_congr : g.path = g'.path := by
  funext u
  rw [path, path, h]

theorem paths_congr : g.paths = g'.paths := by
  rw [paths, paths, h]

theorem node?_congr : g.node? = g'.node? := by
  funext path
  rw [node?, node?, h]

end SameFiles

/-! ## Building by records -/

/-- A graph with the files of another in which so many imports are recorded. -/
structure Recorded (base : Graph) (records : List ImportRecord) (g : Graph) : Prop where
  files_eq : g.files = base.files
  size_dependencies : g.dependencies.size = base.size
  records_eq : g.records.toList = records
  deps_eq : ∀ u < base.size,
    g.deps u = base.targetsOf u (records.filter fun entry => entry.source = base.path u)

theorem Recorded.path_eq (h : Recorded base records g) : g.path = base.path :=
  path_congr h.files_eq

theorem Recorded.node?_eq (h : Recorded base records g) : g.node? = base.node? :=
  node?_congr h.files_eq

theorem Recorded.paths_eq (h : Recorded base records g) : g.paths = base.paths :=
  paths_congr h.files_eq

theorem Recorded.size_eq (h : Recorded base records g) : g.size = base.size :=
  size_congr h.files_eq

/-- The record of an import matters to the node it comes from and to no other. -/
theorem WellFormed.filter_source_concat (h : base.WellFormed) (hnode : node < base.size) {u : Nat}
    (hu : u < base.size) (known : List String) (import_ : Import) :
    (records ++ [recordOf known (base.path node) import_]).filter
        (fun entry => entry.source = base.path u) =
      (records.filter fun entry => entry.source = base.path u) ++
        if u = node then [recordOf known (base.path node) import_] else [] := by
  by_cases hself : u = node
  · simp [recordOf, hself]
  · have hpath : base.path node ≠ base.path u := fun heq =>
      hself (h.path_injective hu hnode heq.symm)
    simp [recordOf, hself, hpath]

theorem Recorded.addImport (h : Recorded base records g) (hbase : base.WellFormed)
    (hnode : node < base.size) (known : List String) (import_ : Import) :
    Recorded base (records ++ [recordOf known (base.path node) import_])
      (addImport known node g import_) := by
  have hdeps := h.deps_eq node hnode
  have hsize : node < (g.note (recordOf known (base.path node) import_)).dependencies.size :=
    h.size_dependencies ▸ hnode
  rcases addImport_cases known node g import_ (by rw [h.path_eq]) with
    ⟨hnote, hold⟩ | ⟨target, htarget, hne, hnew, hlink⟩
  · rw [hnote]
    refine ⟨h.files_eq, h.size_dependencies, ?_, ?_⟩
    · simp [note, h.records_eq]
    · intro u hu
      change g.deps u = _
      rw [hbase.filter_source_concat hnode hu]
      by_cases hself : u = node
      · subst hself
        rw [if_pos rfl, targetsOf_concat_same, hdeps]
        rw [← hdeps, ← h.node?_eq]
        exact hold
      · rw [if_neg hself, List.append_nil, h.deps_eq u hu]
  · rw [hlink]
    refine ⟨h.files_eq, ?_, ?_, ?_⟩
    · simpa [link, note] using h.size_dependencies
    · simp [link, note, h.records_eq]
    · intro u hu
      rw [deps_link hsize, hbase.filter_source_concat hnode hu]
      by_cases hself : u = node
      · subst hself
        rw [hdeps] at hnew
        rw [if_pos rfl, if_pos rfl, targetsOf_concat_new (h.node?_eq ▸ htarget) hne hnew, ← hdeps]
        rfl
      · rw [if_neg hself, if_neg hself, List.append_nil, ← h.deps_eq u hu]
        rfl

theorem Recorded.addImports (h : Recorded base records g) (hbase : base.WellFormed)
    (hnode : node < base.size) (known : List String) (imports : List Import) :
    Recorded base (records ++ imports.map (recordOf known (base.path node)))
      (imports.foldl (Graph.addImport known node) g) := by
  induction imports generalizing records g with
  | nil => simpa using h
  | cons import_ imports ih =>
      have hrest := ih (h.addImport hbase hnode known import_)
      rwa [List.append_assoc, List.singleton_append] at hrest

theorem recorded_ofFiles (files : List SourceFile) :
    Recorded (ofFiles files) [] (ofFiles files) := by
  have hrecords : (ofFiles files).records = #[] := by
    have hempty : Graph.records {} = #[] := rfl
    refine List.foldlRecOn files addFile (motive := fun g => g.records = #[]) hempty ?_
    intro g hg file _
    rcases g.addFile_cases file with ⟨hsame, _⟩ | ⟨_, _, hadd⟩
    · rwa [hsame]
    · rwa [hadd]
  refine ⟨rfl, (ofFiles_wellFormed files).size_dependencies, by rw [hrecords], fun u _ => ?_⟩
  rw [deps_ofFiles]
  rfl

theorem recorded_build (project : Project) :
    Recorded (ofFiles project.files)
      ((ofFiles project.files).nodes.flatMap fun u =>
        (project.importsOf ((ofFiles project.files).path u)).map
          (recordOf (ofFiles project.files).paths ((ofFiles project.files).path u)))
      (build project) := by
  refine foldl_range_induct
    (P := fun k g => Recorded (ofFiles project.files)
      ((List.range k).flatMap fun u =>
        (project.importsOf ((ofFiles project.files).path u)).map
          (recordOf (ofFiles project.files).paths ((ofFiles project.files).path u))) g)
    (recorded_ofFiles project.files) ?_
  intro node g hnode hg
  rw [hg.path_eq, List.range_succ, List.flatMap_append, List.flatMap_singleton]
  exact hg.addImports (ofFiles_wellFormed _) hnode _ _

/-! ## Records and dependencies of a project -/

theorem nodes_map_path (g : Graph) : g.nodes.map g.path = g.paths := by
  apply List.ext_getElem?
  intro u
  by_cases hu : u < g.size
  · rw [getElem?_paths hu]
    simp [nodes, hu]
  · have hpaths : g.paths[u]? = none := by
      rw [List.getElem?_eq_none_iff, length_paths]
      exact Nat.le_of_not_lt hu
    simp [nodes, hu, hpaths]

theorem paths_build (project : Project) : (build project).paths = (ofFiles project.files).paths :=
  (recorded_build project).paths_eq

/-- The imports of all files are noted, file by file. -/
theorem records_build (project : Project) :
    (build project).records.toList =
      (build project).paths.flatMap fun path =>
        (project.importsOf path).map (recordOf (build project).paths path) := by
  rw [(recorded_build project).records_eq, paths_build, ← nodes_map_path, List.flatMap_map]

theorem mem_records_build {project : Project} :
    entry ∈ (build project).records.toList ↔ ∃ path ∈ (build project).paths,
      ∃ import_ ∈ project.importsOf path, recordOf (build project).paths path import_ = entry := by
  simp only [records_build, List.mem_flatMap, List.mem_map]

/-- The records of the imports of a node's file. -/
def recordsOf (g : Graph) (u : Nat) : List ImportRecord :=
  g.records.toList.filter fun entry => entry.source = g.path u

/-- A node has a record for each import of its file. -/
theorem recordsOf_build (project : Project) {u : Nat} (hu : u < (build project).size) :
    (build project).recordsOf u = (project.importsOf ((build project).path u)).map
      (recordOf (build project).paths ((build project).path u)) := by
  rw [recordsOf, records_build, ← nodes_map_path, List.flatMap_map]
  refine Keyed.filter_flatMap_part ?_ ?_ (List.mem_range.2 hu)
  · rw [nodes_map_path]
    exact (build_wellFormed project).paths_nodup
  · intro w entry hentry
    obtain ⟨import_, _, rfl⟩ := List.mem_map.1 hentry
    rfl

/-- A node depends on the nodes that its own records lead to. -/
theorem deps_build_records (project : Project) {u : Nat} (hu : u < (build project).size) :
    (build project).deps u = (build project).targetsOf u ((build project).recordsOf u) := by
  have hrec := recorded_build project
  rw [hrec.deps_eq u (hrec.size_eq ▸ hu), recordsOf, hrec.records_eq, hrec.path_eq, targetsOf,
    targetsOf, hrec.node?_eq]

theorem deps_build (project : Project) {u : Nat} (hu : u < (build project).size) :
    (build project).deps u =
      (build project).targetsOf u ((project.importsOf ((build project).path u)).map
        (recordOf (build project).paths ((build project).path u))) := by
  rw [deps_build_records project hu, recordsOf_build project hu]

theorem WellFormed.dependencyPaths_path (h : g.WellFormed) {u : Nat} (hu : u < g.size) :
    g.dependencyPaths (g.path u) = (g.deps u).map g.path := by
  rw [dependencyPaths, h.node?_path hu]

/-- Where the records name known files only, their targets can be told by path. -/
theorem WellFormed.targetsOf_map_path (h : g.WellFormed) (hnode : node < g.size)
    (hknown : ∀ entry ∈ records, ∀ path ∈ entry.resolved, path ∈ g.paths) :
    (g.targetsOf node records).map g.path =
      ((records.filterMap ImportRecord.resolved).filter (· ≠ g.path node)).eraseDups := by
  have hlt : ∀ v ∈ records.filterMap fun entry => entry.resolved.bind g.node?, v < g.size := by
    intro v hv
    obtain ⟨entry, _, htarget⟩ := List.mem_filterMap.1 hv
    obtain ⟨path, _, hpath⟩ := Option.bind_eq_some_iff.1 htarget
    exact node?_lt hpath
  have hresolved : (records.filterMap fun entry => entry.resolved.bind g.node?).map g.path =
      records.filterMap ImportRecord.resolved := by
    rw [List.map_filterMap]
    refine List.filterMap_congr fun entry hentry => ?_
    cases hpath : entry.resolved with
    | none => rfl
    | some path =>
        obtain ⟨v, hv, rfl⟩ := mem_paths_iff.1 (hknown entry hentry path hpath)
        simp [h.node?_path hv]
  rw [targetsOf, ← Keyed.eraseDups_map, ← hresolved, List.filter_map]
  · congr 2
    refine List.filter_congr fun v hv => ?_
    simp only [Function.comp_apply, decide_eq_decide, not_iff_not]
    exact ⟨congrArg g.path, h.path_injective (hlt v hv) hnode⟩
  · intro v hv w hw
    exact h.path_injective (hlt v (List.mem_of_mem_filter hv)) (hlt w (List.mem_of_mem_filter hw))

/-- The files that a file depends on are those its imports stand for, itself left out, each once and
in the order of the imports. -/
theorem dependencyPaths_build (project : Project) {path : String}
    (hpath : path ∈ (build project).paths) :
    (build project).dependencyPaths path =
      (((project.importsOf path).filterMap fun import_ => resolveImport (build project).paths
        import_.specifier path).filter (· ≠ path)).eraseDups := by
  have h := build_wellFormed project
  obtain ⟨u, hu, rfl⟩ := mem_paths_iff.1 hpath
  rw [h.dependencyPaths_path hu, deps_build project hu, h.targetsOf_map_path hu, List.filterMap_map]
  · rfl
  · intro entry hentry path hpath
    obtain ⟨import_, _, rfl⟩ := List.mem_map.1 hentry
    exact resolveImport_mem hpath

end LayerLint.Graph
