import Mathlib.Data.List.Nodup
import LayerLint.Graph.Basic

/-!
# Well-formed graphs

What a built graph can be relied on for: one node a path, dependency lists without repeats that
name nodes other than the node they belong to, and an edge list that says the same as they do. Each
step of the building keeps this.
-/

namespace LayerLint.Graph

/-- The parts of a graph fit each other. -/
structure WellFormed (g : Graph) : Prop where
  size_dependencies : g.dependencies.size = g.size
  paths_nodup : g.paths.Nodup
  deps_lt : ∀ {u v}, v ∈ g.deps u → v < g.size
  deps_ne : ∀ {u v}, v ∈ g.deps u → v ≠ u
  deps_nodup : ∀ u, (g.deps u).Nodup
  edges_eq : g.edges.toList = g.nodes.flatMap fun u => (g.deps u).map (u, ·)

variable {g : Graph} {u v : Nat}

/-! ## Reading a well-formed graph -/

theorem WellFormed.source_lt (h : g.WellFormed) (huv : v ∈ g.deps u) : u < g.size := by
  by_contra hu
  have hnone : g.dependencies[u]? = none :=
    Array.getElem?_eq_none (h.size_dependencies ▸ Nat.le_of_not_lt hu)
  simp [deps, hnone] at huv

theorem WellFormed.mem_edges (h : g.WellFormed) : (u, v) ∈ g.edges ↔ v ∈ g.deps u := by
  rw [← Array.mem_toList_iff, h.edges_eq]
  simp only [nodes, List.mem_flatMap, List.mem_range, List.mem_map, Prod.mk.injEq]
  constructor
  · rintro ⟨_, _, _, hv, rfl, rfl⟩
    exact hv
  · intro hv
    exact ⟨u, h.source_lt hv, v, hv, rfl, rfl⟩

theorem length_paths (g : Graph) : g.paths.length = g.size := by
  simp [paths, size]

theorem path_eq (hu : u < g.files.size) : g.path u = g.files[u].path := by
  simp [path, hu]

theorem getElem?_paths (hu : u < g.size) : g.paths[u]? = some (g.path u) := by
  have hfile : u < g.files.size := hu
  simp [paths, path, hfile]

theorem node?_lt {path : String} (h : g.node? path = some u) : u < g.size := by
  obtain ⟨hu, _⟩ := Array.findIdx?_eq_some_iff_getElem.1 h
  exact hu

/-- The path of a node leads back to the node. -/
theorem WellFormed.node?_path (h : g.WellFormed) (hu : u < g.size) :
    g.node? (g.path u) = some u := by
  refine Array.findIdx?_eq_some_iff_getElem.2 ⟨hu, by simp [path_eq hu], ?_⟩
  -- An earlier node of the same path would repeat it.
  intro w hw heq
  have hwsize : w < g.size := Nat.lt_trans hw hu
  have hsame : g.path w = g.path u := by
    rw [path_eq hwsize]
    exact eq_of_beq heq
  have hpaths : g.paths[w]? = g.paths[u]? := by
    rw [getElem?_paths hwsize, getElem?_paths hu, hsame]
  exact Nat.ne_of_lt hw
    ((List.getElem?_inj (by rwa [length_paths]) h.paths_nodup).1 hpaths)

theorem WellFormed.node?_eq_some_iff (h : g.WellFormed) {path : String} :
    g.node? path = some u ↔ u < g.size ∧ g.path u = path := by
  constructor
  · intro hnode
    obtain ⟨hu, heq, _⟩ := Array.findIdx?_eq_some_iff_getElem.1 hnode
    exact ⟨hu, by rw [path_eq hu, eq_of_beq heq]⟩
  · rintro ⟨hu, rfl⟩
    exact h.node?_path hu

theorem WellFormed.path_injective (h : g.WellFormed) (hu : u < g.size) (hv : v < g.size)
    (heq : g.path u = g.path v) : u = v := by
  have hnode := h.node?_path hu
  rw [heq, h.node?_path hv] at hnode
  exact (Option.some.inj hnode).symm

theorem mem_paths_iff {path : String} : path ∈ g.paths ↔ ∃ u < g.size, g.path u = path := by
  rw [List.mem_iff_getElem?]
  constructor
  · rintro ⟨u, hu⟩
    have hlt : u < g.size := length_paths g ▸ (List.getElem?_eq_some_iff.1 hu).1
    rw [getElem?_paths hlt] at hu
    exact ⟨u, hlt, Option.some.inj hu⟩
  · rintro ⟨u, hu, rfl⟩
    exact ⟨u, getElem?_paths hu⟩

theorem WellFormed.mem_dependencyPaths (h : g.WellFormed) (huv : v ∈ g.deps u) :
    g.path v ∈ g.dependencyPaths (g.path u) := by
  rw [dependencyPaths, h.node?_path (h.source_lt huv)]
  exact List.mem_map_of_mem huv

/-! ## Adding files -/

theorem any_path_iff {path : String} : g.files.any (·.path == path) = true ↔ path ∈ g.paths := by
  rw [Array.any_eq_true']
  simp [paths]

theorem addFile_cases (g : Graph) (file : SourceFile) :
    g.addFile file = g ∧ (file.isDirectory = true ∨ file.path ∈ g.paths) ∨
      file.isDirectory = false ∧ file.path ∉ g.paths ∧
        g.addFile file =
          { g with files := g.files.push file, dependencies := g.dependencies.push [] } := by
  unfold addFile
  split
  · rename_i hskip
    rw [Bool.or_eq_true, any_path_iff] at hskip
    exact Or.inl ⟨rfl, hskip⟩
  · rename_i hadd
    rw [Bool.or_eq_true, any_path_iff, not_or, Bool.not_eq_true] at hadd
    exact Or.inr ⟨hadd.1, hadd.2, rfl⟩

theorem deps_addFile (g : Graph) (file : SourceFile) (u : Nat) :
    (g.addFile file).deps u = g.deps u := by
  rcases g.addFile_cases file with ⟨hsame, _⟩ | ⟨_, _, hadd⟩
  · rw [hsame]
  · rw [hadd]
    simp only [deps, Array.getElem?_push]
    split <;> simp_all

theorem WellFormed.addFile (h : g.WellFormed) (file : SourceFile) :
    (g.addFile file).WellFormed := by
  have hdeps := g.deps_addFile file
  rcases g.addFile_cases file with ⟨hsame, _⟩ | ⟨_, hnew, hadd⟩
  · rwa [hsame]
  · rw [hadd] at hdeps ⊢
    have hsize : g.size < g.size + 1 := Nat.lt_succ_self _
    refine ⟨?_, ?_, ?_, ?_, ?_, ?_⟩
    · simpa [size] using h.size_dependencies
    · have hpaths : g.paths ++ [file.path] = (g.files.push file).toList.map SourceFile.path := by
        simp [paths]
      show ((g.files.push file).toList.map SourceFile.path).Nodup
      rw [← hpaths]
      exact List.concat_eq_append ▸ h.paths_nodup.concat hnew
    · intro u v hv
      rw [hdeps] at hv
      simpa [size] using Nat.lt_trans (h.deps_lt hv) hsize
    · intro u v hv
      rw [hdeps] at hv
      exact h.deps_ne hv
    · intro u
      rw [hdeps]
      exact h.deps_nodup u
    · have hnone : g.deps g.size = [] := by
        rw [deps, ← h.size_dependencies]
        simp
      have hnodes : List.range (g.size + 1) = g.nodes ++ [g.size] := List.range_succ
      simp only [hdeps, nodes, size, Array.size_push]
      rw [show g.files.size = g.size from rfl, hnodes, List.flatMap_append, ← h.edges_eq]
      simp [hnone]

theorem wellFormed_empty : WellFormed {} := by
  constructor <;> simp [size, paths, deps, nodes]

theorem ofFiles_wellFormed (files : List SourceFile) : (ofFiles files).WellFormed :=
  List.foldlRecOn files addFile wellFormed_empty fun _ h file _ => h.addFile file

theorem deps_ofFiles (files : List SourceFile) (u : Nat) : (ofFiles files).deps u = [] := by
  have hempty : deps {} u = [] := by simp [deps]
  refine List.foldlRecOn files addFile (motive := fun g => g.deps u = []) hempty ?_
  intro g hg file _
  rwa [deps_addFile]

/-! ## Adding imports -/

/-- The graph with one more import noted. -/
def note (g : Graph) (entry : ImportRecord) : Graph :=
  { g with records := g.records.push entry }

/-- The graph with one more edge. -/
def link (g : Graph) (node target : Nat) : Graph :=
  { g with
    dependencies := g.dependencies.modify node (· ++ [target])
    edges := g.edges.push (node, target) }

/-- The record of an import of a file. -/
def recordOf (known : List String) (source : String) (import_ : Import) : ImportRecord :=
  ⟨source, import_.specifier, resolveImport known import_.specifier source⟩

/-- An import is noted; if it stands for another file that is not depended on yet, it makes an
edge. -/
theorem addImport_cases (known : List String) (node : Nat) (g : Graph) (import_ : Import)
    {entry : ImportRecord} (hentry : recordOf known (g.path node) import_ = entry) :
    (addImport known node g import_ = g.note entry ∧
      ∀ target, entry.resolved.bind g.node? = some target →
        target = node ∨ target ∈ g.deps node) ∨
    ∃ target, entry.resolved.bind g.node? = some target ∧ target ≠ node ∧
      target ∉ g.deps node ∧ addImport known node g import_ = (g.note entry).link node target := by
  subst hentry
  unfold addImport
  dsimp only
  split
  · rename_i hnone
    have hnone : (recordOf known (g.path node) import_).resolved.bind g.node? = none := hnone
    refine Or.inl ⟨rfl, ?_⟩
    intro target htarget
    rw [hnone] at htarget
    cases htarget
  · rename_i target htarget
    have htarget : (recordOf known (g.path node) import_).resolved.bind g.node? = some target :=
      htarget
    split
    · rename_i hold
      refine Or.inl ⟨rfl, ?_⟩
      intro other hother
      rw [htarget] at hother
      exact Option.some.inj hother ▸ hold
    · rename_i hfresh
      exact Or.inr ⟨target, htarget, fun h => hfresh (Or.inl h), fun h => hfresh (Or.inr h), rfl⟩

theorem WellFormed.note (h : g.WellFormed) (entry : ImportRecord) : (g.note entry).WellFormed :=
  ⟨h.size_dependencies, h.paths_nodup, h.deps_lt, h.deps_ne, h.deps_nodup, h.edges_eq⟩

theorem deps_link {node : Nat} (hnode : node < g.dependencies.size) (target : Nat) :
    (g.link node target).deps u = if u = node then g.deps node ++ [target] else g.deps u := by
  simp only [deps, link, Array.getElem?_modify]
  by_cases hu : u = node
  · subst hu
    simp [hnode]
  · simp [hu, Ne.symm hu]

theorem WellFormed.deps_link (h : g.WellFormed) {node : Nat} (hnode : node < g.size)
    (target : Nat) :
    (g.link node target).deps u = if u = node then g.deps node ++ [target] else g.deps u :=
  Graph.deps_link (h.size_dependencies ▸ hnode) target

theorem WellFormed.mem_deps_link (h : g.WellFormed) {node target : Nat} (hnode : node < g.size)
    (hv : v ∈ (g.link node target).deps u) : v ∈ g.deps u ∨ u = node ∧ v = target := by
  rw [h.deps_link hnode] at hv
  split at hv
  · rename_i hu
    subst hu
    simpa using hv
  · exact Or.inl hv

theorem nodes_split {node : Nat} (hnode : node < g.size) :
    g.nodes = List.range node ++ node :: List.range' (node + 1) (g.size - node - 1) := by
  have hsize : g.size = node + (g.size - node - 1 + 1) := by omega
  have happend := List.range'_append_1 (s := 0) (m := node) (n := g.size - node - 1 + 1)
  rw [Nat.zero_add, ← hsize, List.range'_succ] at happend
  rw [nodes, List.range_eq_range', List.range_eq_range', happend]

/-- The new edge comes last, since the nodes behind have no edges yet. -/
theorem WellFormed.edges_link (h : g.WellFormed) {node : Nat} (hnode : node < g.size)
    (hrest : ∀ u > node, g.deps u = []) (target : Nat) :
    (g.link node target).edges.toList =
      (g.link node target).nodes.flatMap fun u => ((g.link node target).deps u).map (u, ·) := by
  have hbefore : (List.range node).flatMap (fun u => ((g.link node target).deps u).map (u, ·)) =
      (List.range node).flatMap fun u => (g.deps u).map (u, ·) := by
    refine List.flatMap_congr fun u hu => ?_
    rw [h.deps_link hnode, if_neg (Nat.ne_of_lt (List.mem_range.1 hu))]
  have hbehind : ∀ deps : Nat → List Nat, (∀ u > node, deps u = []) →
      (List.range' (node + 1) (g.size - node - 1)).flatMap (fun u => (deps u).map (u, ·)) = [] := by
    intro deps hdeps
    refine List.flatMap_eq_nil_iff.2 fun u hu => ?_
    rw [hdeps u (List.mem_range'_1.1 hu).1, List.map_nil]
  have hlinked : ∀ u > node, (g.link node target).deps u = [] := by
    intro u hu
    rw [h.deps_link hnode, if_neg (Nat.ne_of_gt hu), hrest u hu]
  have hnodes : (g.link node target).nodes = g.nodes := rfl
  have hedges : (g.link node target).edges.toList = g.edges.toList ++ [(node, target)] := by
    simp [Graph.link]
  rw [hedges, h.edges_eq, hnodes, nodes_split hnode]
  simp only [List.flatMap_append, List.flatMap_cons]
  rw [hbefore, hbehind _ hrest, hbehind _ hlinked, h.deps_link hnode, if_pos rfl]
  simp

theorem WellFormed.link (h : g.WellFormed) {node target : Nat} (hnode : node < g.size)
    (hrest : ∀ u > node, g.deps u = []) (htarget : target < g.size) (hne : target ≠ node)
    (hfresh : target ∉ g.deps node) : (g.link node target).WellFormed := by
  refine ⟨?_, h.paths_nodup, ?_, ?_, ?_, h.edges_link hnode hrest target⟩
  · simpa [Graph.link, size] using h.size_dependencies
  · intro u v hv
    rcases h.mem_deps_link hnode hv with hv | ⟨_, rfl⟩
    · exact h.deps_lt hv
    · exact htarget
  · intro u v hv
    rcases h.mem_deps_link hnode hv with hv | ⟨rfl, rfl⟩
    · exact h.deps_ne hv
    · exact hne
  · intro u
    rw [h.deps_link hnode]
    split
    · exact List.concat_eq_append ▸ (h.deps_nodup node).concat hfresh
    · exact h.deps_nodup u

/-! ## The whole building -/

/-- What each round over the numbers below `n` keeps, the whole loop keeps. -/
theorem foldl_range_induct {α : Type} {P : Nat → α → Prop} {f : α → Nat → α} {n : Nat} {a : α}
    (hstart : P 0 a) (hround : ∀ k a, k < n → P k a → P (k + 1) (f a k)) :
    P n ((List.range n).foldl f a) := by
  induction n with
  | zero => exact hstart
  | succ n ih =>
      rw [List.range_succ, List.foldl_append]
      exact hround n _ (Nat.lt_succ_self n)
        (ih fun k a hk => hround k a (Nat.lt_succ_of_lt hk))

/-- A well-formed graph of some size, in which only the first nodes have edges. -/
structure LinkedTo (size count : Nat) (g : Graph) : Prop where
  wellFormed : g.WellFormed
  size_eq : g.size = size
  unlinked : ∀ u ≥ count, g.deps u = []

theorem LinkedTo.addImport {size node : Nat} (h : g.LinkedTo size (node + 1))
    (hnode : node < size) (known : List String) (import_ : Import) :
    (addImport known node g import_).LinkedTo size (node + 1) := by
  rcases addImport_cases known node g import_ rfl with
    ⟨hnote, _⟩ | ⟨target, htarget, hne, hfresh, hlink⟩
  · rw [hnote]
    exact ⟨h.wellFormed.note _, h.size_eq, h.unlinked⟩
  · rw [hlink]
    obtain ⟨path, _, hpath⟩ := Option.bind_eq_some_iff.1 htarget
    have hwf := h.wellFormed.note (recordOf known (g.path node) import_)
    have hlt : node < (g.note (recordOf known (g.path node) import_)).size := h.size_eq ▸ hnode
    refine ⟨hwf.link hlt h.unlinked (node?_lt hpath) hne hfresh, h.size_eq, ?_⟩
    intro u hu
    rw [hwf.deps_link hlt, if_neg (Nat.ne_of_gt hu)]
    exact h.unlinked u hu

theorem build_wellFormed (project : Project) : (build project).WellFormed := by
  have hlinked : (build project).LinkedTo (ofFiles project.files).size
      (ofFiles project.files).size := by
    refine foldl_range_induct (P := LinkedTo (ofFiles project.files).size)
      ⟨ofFiles_wellFormed _, rfl, fun u _ => deps_ofFiles _ u⟩ ?_
    intro node g hnode hg
    refine List.foldlRecOn _ _ (motive := LinkedTo _ (node + 1)) ?_ ?_
    · exact ⟨hg.wellFormed, hg.size_eq, fun u hu => hg.unlinked u (Nat.le_of_succ_le hu)⟩
    · intro g hg import_ _
      exact hg.addImport hnode _ import_
  exact hlinked.wellFormed

end LayerLint.Graph
