import Mathlib.Data.List.Forall2
import LayerLint.Proofs.Assoc
import LayerLint.Proofs.Graph.Views
import LayerLint.Proofs.Path.Basic

/-!
# One more file

A file that is added to a project, at any place, can become what imports stand for. It never turns
an import from one of the other files to another.
-/

namespace LayerLint.Graph

/-- Both are records of one import, and it stands for what it did before or for the file. -/
def TakenAtMost (file : String) (before after : ImportRecord) : Prop :=
  after.source = before.source ∧ after.raw = before.raw ∧
    (after.resolved = before.resolved ∨ after.resolved = some file)

/-- The nodes of a project with one more file are those without it and the file. -/
theorem paths_build_insert (before behind : List SourceFile) (imports : Assoc (List Import))
    {file : String} (hslash : '\\' ∉ file.toList) (hnew : file ∉ filePaths (before ++ behind)) :
    ∃ first last, (build { files := before ++ behind, imports }).paths = first ++ last ∧
      (build { files := before ++ .ofPath file :: behind, imports }).paths =
        first ++ file :: last := by
  rw [filePaths_append, List.mem_append, not_or] at hnew
  refine ⟨(filePaths before).eraseDups,
    ((filePaths behind).removeAll (filePaths before)).eraseDups, ?_, ?_⟩
  · rw [paths_build, paths_ofFiles, filePaths_append, List.eraseDups_append]
  · have hfile : filePaths (.ofPath file :: behind) = file :: filePaths behind := by
      simp [filePaths, SourceFile.ofPath, Path.slashed_eq_self hslash]
    rw [paths_build, paths_ofFiles, filePaths_append, hfile,
      Keyed.eraseDups_insert hnew.1 hnew.2]

/-- With one more file every import is recorded as before, and stands for the same file or for the
new one. -/
theorem added_file_takes_imports_for_itself (before behind : List SourceFile)
    (imports : Assoc (List Import)) (file : String) (hslash : '\\' ∉ file.toList)
    (hnew : file ∉ filePaths (before ++ behind)) (hkey : file ∉ imports.keys) :
    List.Forall₂ (TakenAtMost file)
      (build { files := before ++ behind, imports }).records.toList
      (build { files := before ++ .ofPath file :: behind, imports }).records.toList := by
  obtain ⟨first, last, hpaths, hpaths'⟩ := paths_build_insert before behind imports hslash hnew
  have hnone :
      Project.importsOf { files := before ++ .ofPath file :: behind, imports } file = [] := by
    rw [Project.importsOf, Assoc.get?_eq_none_iff.2 hkey, Option.getD_none]
  rw [records_build, records_build, hpaths, hpaths']
  simp only [List.flatMap_append, List.flatMap_cons, hnone, List.map_nil, List.nil_append]
  rw [← List.flatMap_append, ← List.flatMap_append]
  refine List.rel_flatMap (List.forall₂_same.2 fun _ _ => rfl) ?_
  rintro path _ rfl
  rw [List.forall₂_map_left_iff, List.forall₂_map_right_iff]
  exact List.forall₂_same.2 fun import_ _ =>
    ⟨rfl, rfl, resolveImport_insert first last file import_.specifier path⟩

/-- An example: what a file imports by a shared ending and by a relative path. -/
def helperImports : Assoc (List Import) :=
  [("app/main.go", [.ofSpecifier "util.go", .ofSpecifier "./util"])]

theorem added_file_takes_imports_for_itself_helper :
    "app/util.go" ∉ filePaths [.directory "app", .ofPath "app/main.go", .ofPath "lib/util.go"] ∧
      "app/util.go" ∉ helperImports.keys ∧
      List.Forall₂ (TakenAtMost "app/util.go")
        [⟨"app/main.go", "util.go", some "lib/util.go"⟩, ⟨"app/main.go", "./util", none⟩]
        [⟨"app/main.go", "util.go", some "app/util.go"⟩,
          ⟨"app/main.go", "./util", some "app/util.go"⟩] := by
  have hnew : "app/util.go" ∉
      filePaths [.directory "app", .ofPath "app/main.go", .ofPath "lib/util.go"] := by
    decide +kernel
  have hkey : "app/util.go" ∉ helperImports.keys := by decide +kernel
  have htaken := added_file_takes_imports_for_itself [.directory "app", .ofPath "app/main.go"]
    [.ofPath "lib/util.go"] helperImports "app/util.go" (by decide +kernel) hnew hkey
  refine ⟨hnew, hkey, ?_⟩
  convert htaken using 1 <;> decide +kernel

end LayerLint.Graph
