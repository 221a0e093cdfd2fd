import LayerLint.Proofs.Assoc
import LayerLint.Proofs.Graph.Views
import LayerLint.Proofs.Path.Basic

/-!
# Projects built step by step

Entries and imports can be given in any order and with either slash. The files are the entries as
they came, and the imports of a file are those that were set for its path last.
-/

namespace LayerLint

namespace Project

/-! ## Single changes -/

theorem importsOf_setImports (project : Project) (path other : String) (imports : List Import) :
    (project.setImports path imports).importsOf other =
      if Path.slashed path = other then imports else project.importsOf other := by
  rw [importsOf, setImports, Assoc.get?_set]
  split <;> rfl

theorem files_addFile (project : Project) (path : String) (imports : List Import) :
    (project.addFile path imports).files = project.files ++ [.ofPath path] := by
  unfold addFile
  split <;> rfl

theorem importsOf_addFile (project : Project) (path other : String) (imports : List Import) :
    (project.addFile path imports).importsOf other =
      if Path.slashed path = other ∧ imports ≠ [] then imports else project.importsOf other := by
  cases imports with
  | nil => simp [addFile, push, importsOf]
  | cons import_ imports =>
      have hset := project.importsOf_setImports path other (import_ :: imports)
      simpa [addFile, push, importsOf] using hset

/-- No path of an entry and no path that imports are kept under has a backslash. -/
structure IsSlashed (project : Project) : Prop where
  files : ∀ file ∈ project.files, '\\' ∉ file.path.toList
  keys : ∀ key ∈ project.imports.keys, '\\' ∉ key.toList

namespace IsSlashed

variable {project : Project}

theorem push (h : project.IsSlashed) {file : SourceFile} (hfile : '\\' ∉ file.path.toList) :
    (project.push file).IsSlashed := by
  refine ⟨fun other hother => ?_, h.keys⟩
  rcases List.mem_append.1 hother with hother | hother
  · exact h.files other hother
  · rwa [List.mem_singleton.1 hother]

theorem setImports (h : project.IsSlashed) (path : String) (imports : List Import) :
    (project.setImports path imports).IsSlashed := by
  refine ⟨h.files, fun key hkey => ?_⟩
  rcases Assoc.mem_keys_set hkey with rfl | hkey
  · exact Path.backslash_notMem_slashed path
  · exact h.keys key hkey

theorem addFile (h : project.IsSlashed) (path : String) (imports : List Import) :
    (project.addFile path imports).IsSlashed := by
  unfold Project.addFile
  split
  · exact h.push (Path.backslash_notMem_slashed path)
  · exact (h.setImports path imports).push (Path.backslash_notMem_slashed path)

end IsSlashed

/-! ## Steps -/

/-- A step in the building of a project. -/
inductive Step where
  | addFile (path : String) (imports : List Import)
  | pushFile (path : String)
  | pushDirectory (path : String)
  | setImports (path : String) (imports : List Import)
  deriving DecidableEq

namespace Step

/-- Takes a step. -/
def apply (project : Project) : Step → Project
  | addFile path imports => project.addFile path imports
  | pushFile path => project.push (.ofPath path)
  | pushDirectory path => project.push (.directory path)
  | setImports path imports => project.setImports path imports

/-- The same step with its path slashed. -/
def slashed : Step → Step
  | addFile path imports => addFile (Path.slashed path) imports
  | pushFile path => pushFile (Path.slashed path)
  | pushDirectory path => pushDirectory (Path.slashed path)
  | setImports path imports => setImports (Path.slashed path) imports

/-- The entry that a step adds. -/
def entry? : Step → Option SourceFile
  | addFile path _ | pushFile path => some { path := Path.slashed path }
  | pushDirectory path => some { path := Path.slashed path, isDirectory := true }
  | setImports _ _ => none

/-- The imports that a step sets for a path. A file added without imports sets none. -/
def importsFor? (path : String) : Step → Option (List Import)
  | addFile own imports => if Path.slashed own = path ∧ imports ≠ [] then some imports else none
  | setImports own imports => if Path.slashed own = path then some imports else none
  | pushFile _ | pushDirectory _ => none

theorem files_apply (project : Project) (step : Step) :
    (apply project step).files = project.files ++ step.entry?.toList := by
  cases step with
  | addFile path imports => exact project.files_addFile path imports
  | pushFile path => rfl
  | pushDirectory path => rfl
  | setImports path imports => exact (List.append_nil _).symm

theorem importsOf_apply (project : Project) (step : Step) (path : String) :
    (apply project step).importsOf path =
      (step.importsFor? path).getD (project.importsOf path) := by
  cases step with
  | addFile own imports =>
      rw [apply, importsOf_addFile, importsFor?]
      split <;> rfl
  | pushFile own => rfl
  | pushDirectory own => rfl
  | setImports own imports =>
      rw [apply, importsOf_setImports, importsFor?]
      split <;> rfl

theorem isSlashed_apply {project : Project} (h : project.IsSlashed) (step : Step) :
    (apply project step).IsSlashed := by
  cases step with
  | addFile path imports => exact h.addFile path imports
  | pushFile path => exact h.push (Path.backslash_notMem_slashed path)
  | pushDirectory path => exact h.push (Path.backslash_notMem_slashed path)
  | setImports path imports => exact h.setImports path imports

theorem apply_slashed (project : Project) (step : Step) :
    apply project step.slashed = apply project step := by
  cases step <;>
    simp only [slashed, apply, Project.addFile, Project.setImports, SourceFile.directory,
      SourceFile.ofPath, Path.slashed_slashed]

end Step

/-! ## Runs -/

/-- The project after some steps. -/
def ofSteps (steps : List Step) : Project :=
  steps.foldl Step.apply {}

/-- The imports that the last step to set any for a path sets for it. -/
def lastImports (steps : List Step) (path : String) : List Import :=
  (steps.filterMap (Step.importsFor? path)).getLast?.getD []

theorem ofSteps_concat (steps : List Step) (step : Step) :
    ofSteps (steps ++ [step]) = Step.apply (ofSteps steps) step := by
  simp [ofSteps]

theorem lastImports_concat (steps : List Step) (step : Step) (path : String) :
    lastImports (steps ++ [step]) path =
      (step.importsFor? path).getD (lastImports steps path) := by
  rw [lastImports, List.filterMap_append]
  cases himports : step.importsFor? path <;> simp [himports, lastImports]

theorem files_ofSteps (steps : List Step) :
    (ofSteps steps).files = steps.filterMap Step.entry? := by
  induction steps using List.reverseRecOn with
  | nil => rfl
  | append_singleton steps step ih =>
      rw [ofSteps_concat, Step.files_apply, ih, List.filterMap_append]
      cases hentry : step.entry? <;> simp [hentry]

theorem importsOf_ofSteps (steps : List Step) (path : String) :
    (ofSteps steps).importsOf path = lastImports steps path := by
  induction steps using List.reverseRecOn with
  | nil => rfl
  | append_singleton steps step ih =>
      rw [ofSteps_concat, Step.importsOf_apply, ih, lastImports_concat]

theorem isSlashed_ofSteps (steps : List Step) : (ofSteps steps).IsSlashed := by
  have hempty : IsSlashed {} := ⟨by simp, by simp [Assoc.keys]⟩
  exact List.foldlRecOn steps Step.apply hempty fun _ h step _ => Step.isSlashed_apply h step

theorem ofSteps_map_slashed (steps : List Step) :
    ofSteps (steps.map Step.slashed) = ofSteps steps := by
  rw [ofSteps, List.foldl_map]
  simp only [Step.apply_slashed]
  rfl

end Project

/-! ## Records of a file -/

theorem Graph.filter_records_build (project : Project) {path : String}
    (hpath : path ∈ filePaths project.files) :
    (build project).records.toList.filter (fun entry => entry.source = path) =
      (project.importsOf path).map (recordOf (build project).paths path) := by
  have hmem : path ∈ (build project).paths := by
    rwa [paths_build, paths_ofFiles, List.mem_eraseDups]
  obtain ⟨u, hu, rfl⟩ := mem_paths_iff.1 hmem
  exact recordsOf_build project hu

namespace Project

/-- A project keeps its entries in the order of the steps and for each path the imports that were
set last, all under slashed paths, and the building records these imports for the files. It does not
matter which slashes the steps were spelled with. -/
theorem last_imports_win (steps : List Step) :
    (ofSteps steps).files = steps.filterMap Step.entry? ∧
    (∀ file ∈ (ofSteps steps).files, '\\' ∉ file.path.toList) ∧
    (∀ key ∈ (ofSteps steps).imports.keys, '\\' ∉ key.toList) ∧
    (∀ path, (ofSteps steps).importsOf path = lastImports steps path) ∧
    (∀ path ∈ Graph.filePaths (ofSteps steps).files,
      (Graph.build (ofSteps steps)).records.toList.filter (fun entry => entry.source = path) =
        (lastImports steps path).map
          (Graph.recordOf (Graph.build (ofSteps steps)).paths path)) ∧
    ofSteps (steps.map Step.slashed) = ofSteps steps := by
  have hslashed := isSlashed_ofSteps steps
  refine ⟨files_ofSteps steps, hslashed.files, hslashed.keys, importsOf_ofSteps steps, ?_,
    ofSteps_map_slashed steps⟩
  intro path hpath
  rw [Graph.filter_records_build _ hpath, importsOf_ofSteps]

/-- An example: both slashes, a file added again without imports, and imports set for a path
before and after its file is added. -/
def rewritten : List Step :=
  [.pushDirectory "lib\\", .addFile "lib\\a.go" [.ofSpecifier "b.go"],
    .setImports "lib/b.go" [.ofSpecifier "a.go"], .addFile "lib/a.go" [], .pushFile "lib\\b.go",
    .addFile "lib/c.go" [.ofSpecifier "a.go"], .setImports "lib\\c.go" [],
    .setImports "lib\\b.go" [.ofSpecifier "c.go"]]

theorem last_imports_win_rewritten :
    "lib/b.go" ∈ Graph.filePaths (ofSteps rewritten).files ∧
      ["lib/a.go", "lib/b.go", "lib/c.go"].map (ofSteps rewritten).importsOf =
        [[.ofSpecifier "b.go"], [.ofSpecifier "c.go"], []] ∧
      (Graph.build (ofSteps rewritten)).records.toList.filter
        (fun entry => entry.source = "lib/b.go") =
          [{ source := "lib/b.go", raw := "c.go", resolved := some "lib/c.go" }] := by
  obtain ⟨_, _, _, himports, hrecords, _⟩ := last_imports_win rewritten
  have hfile : "lib/b.go" ∈ Graph.filePaths (ofSteps rewritten).files := by decide +kernel
  refine ⟨hfile, ?_, (hrecords _ hfile).trans (by decide +kernel)⟩
  simp only [List.map_cons, List.map_nil, himports]
  decide +kernel

end Project

end LayerLint
