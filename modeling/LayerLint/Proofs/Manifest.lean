import LayerLint.Manifest
import LayerLint.Proofs.Graph.Determined
import LayerLint.Proofs.Project.Store

/-!
# Entries that make no node

An entry that is a directory, or repeats the path of a file before it, makes no node. The nodes come
from the first entries of their paths, but their imports from the last entries that have any: such
an entry can still set the imports of the node at its path, and nothing else.
-/

namespace LayerLint

/-! ## Single entries -/

namespace ManifestEntry

/-- What an entry adds to the files of a project. -/
def file (entry : ManifestEntry) : SourceFile :=
  { path := Path.slashed entry.path
    absolutePath := entry.absolutePath
    isDirectory := entry.isDirectory }

/-- Whether an entry has imports for a path. -/
def hasImportsAt (path : String) (entry : ManifestEntry) : Bool :=
  decide (Path.slashed entry.path = path) && !entry.imports.isEmpty

end ManifestEntry

namespace Manifest

variable {before behind : List ManifestEntry} {entry : ManifestEntry} {path : String}

theorem files_addEntry (project : Project) (entry : ManifestEntry) :
    (addEntry project entry).files = project.files ++ [entry.file] := by
  unfold addEntry
  split <;> rfl

theorem importsOf_addEntry (project : Project) (entry : ManifestEntry) (path : String) :
    (addEntry project entry).importsOf path =
      if entry.hasImportsAt path then entry.imports else project.importsOf path := by
  unfold addEntry
  cases hempty : entry.imports.isEmpty with
  | true => simp [ManifestEntry.hasImportsAt, hempty, Project.push, Project.importsOf]
  | false =>
      have hset := project.importsOf_setImports (Path.slashed entry.path) path entry.imports
      rw [Path.slashed_slashed] at hset
      simpa [ManifestEntry.hasImportsAt, hempty, Project.push, Project.importsOf] using hset

/-! ## All entries -/

/-- The imports that entries give a path: those of the last entry there that has any. -/
def importsAt (entries : List ManifestEntry) (path : String) : List Import :=
  ((entries.filter (·.hasImportsAt path)).getLast?.map ManifestEntry.imports).getD []

theorem importsAt_append (entries entries' : List ManifestEntry) (path : String) :
    importsAt (entries ++ entries') path =
      if entries'.any (·.hasImportsAt path) then importsAt entries' path
      else importsAt entries path := by
  rw [importsAt, importsAt, importsAt, List.filter_append, List.getLast?_append]
  cases hlast : (entries'.filter (·.hasImportsAt path)).getLast? with
  | none =>
      have hnone : entries'.any (·.hasImportsAt path) = false := by
        simpa [List.filter_eq_nil_iff] using hlast
      rw [hnone]
      rfl
  | some last =>
      obtain ⟨hlast, hhas⟩ := List.mem_filter.1 (List.mem_of_getLast? hlast)
      rw [if_pos (List.any_eq_true.2 ⟨last, hlast, hhas⟩)]
      rfl

theorem toProject_concat (entries : List ManifestEntry) (entry : ManifestEntry) :
    toProject ⟨entries ++ [entry]⟩ = addEntry (toProject ⟨entries⟩) entry := by
  simp [toProject]

theorem files_toProject (entries : List ManifestEntry) :
    (toProject ⟨entries⟩).files = entries.map ManifestEntry.file := by
  induction entries using List.reverseRecOn with
  | nil => rfl
  | append_singleton entries entry ih =>
      rw [toProject_concat, files_addEntry, ih, List.map_append, List.map_singleton]

theorem importsOf_toProject (entries : List ManifestEntry) (path : String) :
    (toProject ⟨entries⟩).importsOf path = importsAt entries path := by
  induction entries using List.reverseRecOn with
  | nil => rfl
  | append_singleton entries entry ih =>
      rw [toProject_concat, importsOf_addEntry, ih, importsAt_append]
      by_cases hentry : entry.hasImportsAt path = true <;> simp [hentry, importsAt]

/-! ## Skipped entries -/

/-- An entry that makes no node: a directory, or one that repeats the path of a file before it. -/
def Skipped (before : List ManifestEntry) (entry : ManifestEntry) : Prop :=
  entry.isDirectory = true ∨ ∃ earlier ∈ before,
    earlier.isDirectory = false ∧ Path.slashed earlier.path = Path.slashed entry.path

instance : Decidable (Skipped before entry) :=
  inferInstanceAs (Decidable (_ ∨ ∃ _ ∈ _, _ ∧ _))

theorem Skipped.ofFiles_eq (h : Skipped before entry) (behind : List ManifestEntry) :
    Graph.ofFiles (toProject ⟨before ++ entry :: behind⟩).files =
      Graph.ofFiles (toProject ⟨before ++ behind⟩).files := by
  rw [files_toProject, files_toProject, List.map_append, List.map_append, List.map_cons]
  refine Graph.ofFiles_skip _ _ (h.imp_right ?_)
  rintro ⟨earlier, hearlier, hfile, hpath⟩
  refine List.mem_map.2 ⟨earlier.file, List.mem_filter.2 ⟨List.mem_map_of_mem hearlier, ?_⟩, hpath⟩
  simp [ManifestEntry.file, hfile]

/-- An entry without imports for a path does not matter to it. -/
theorem importsAt_without (h : entry.hasImportsAt path = false) :
    importsAt (before ++ entry :: behind) path = importsAt (before ++ behind) path := by
  rw [importsAt, importsAt, List.filter_append, List.filter_append,
    List.filter_cons_of_neg (by simp [h])]

/-- Nor does an entry with a later one that has imports for the path. -/
theorem importsAt_overridden (h : behind.any (·.hasImportsAt path) = true) :
    importsAt (before ++ entry :: behind) path = importsAt (before ++ behind) path := by
  rw [← List.singleton_append, ← List.append_assoc, importsAt_append, if_pos h, importsAt_append,
    if_pos h]

/-- Otherwise its imports stand in place of those before. -/
theorem importsAt_overriding (before : List ManifestEntry) (h : entry.hasImportsAt path = true)
    (hbehind : behind.any (·.hasImportsAt path) = false) :
    importsAt (before ++ entry :: behind) path = entry.imports ∧
      importsAt (before ++ behind) path = importsAt before path := by
  constructor
  · rw [← List.singleton_append, ← List.append_assoc, importsAt_append, hbehind,
      if_neg Bool.false_ne_true, importsAt_append]
    simp [importsAt, h]
  · rw [importsAt_append, hbehind, if_neg Bool.false_ne_true]

/-- An entry leaves what is spelled at its path if it has no imports, is overridden, or spells the
same, and only then. -/
theorem specifiers_eq_iff (before behind : List ManifestEntry) (entry : ManifestEntry) :
    (importsAt (before ++ entry :: behind) (Path.slashed entry.path)).map Import.specifier =
        (importsAt (before ++ behind) (Path.slashed entry.path)).map Import.specifier ↔
      entry.imports = [] ∨
      (∃ later ∈ behind, Path.slashed later.path = Path.slashed entry.path ∧ later.imports ≠ []) ∨
      entry.imports.map Import.specifier =
        (importsAt before (Path.slashed entry.path)).map Import.specifier := by
  have hany : behind.any (·.hasImportsAt (Path.slashed entry.path)) = true ↔ ∃ later ∈ behind,
      Path.slashed later.path = Path.slashed entry.path ∧ later.imports ≠ [] := by
    simp [ManifestEntry.hasImportsAt]
  rw [← hany]
  by_cases hempty : entry.imports = []
  · rw [importsAt_without (by simp [ManifestEntry.hasImportsAt, hempty])]
    exact iff_of_true rfl (Or.inl hempty)
  · cases hbehind : behind.any (·.hasImportsAt (Path.slashed entry.path)) with
    | true =>
        rw [importsAt_overridden hbehind]
        exact iff_of_true rfl (Or.inr (Or.inl rfl))
    | false =>
        have hhas : entry.hasImportsAt (Path.slashed entry.path) = true := by
          simp [ManifestEntry.hasImportsAt, hempty]
        obtain ⟨hwith, hwithout⟩ := importsAt_overriding before hhas hbehind
        rw [hwith, hwithout]
        simp [hempty]

/-- To leave a skipped entry out changes no node and nothing at other paths. But the imports of a
node are those of the last entry at its path that has any, skipped or not. So the graph stays the
same if the skipped entry stands at no node, has no imports, is overridden by a later entry, or
spells what was spelled there before, and only then. -/
theorem skipped_entry_effect (before behind : List ManifestEntry) (entry : ManifestEntry)
    (hskip : Skipped before entry) {full part : Graph}
    (hfull : full = Graph.build (toProject ⟨before ++ entry :: behind⟩))
    (hpart : part = Graph.build (toProject ⟨before ++ behind⟩)) :
    full.files = part.files ∧
    (∀ u < full.size, full.recordsOf u =
      (importsAt (before ++ entry :: behind) (full.path u)).map
        (Graph.recordOf full.paths (full.path u))) ∧
    (∀ u < full.size, full.path u ≠ Path.slashed entry.path →
      full.deps u = part.deps u ∧ full.recordsOf u = part.recordsOf u) ∧
    (full = part ↔
      Path.slashed entry.path ∉ full.paths ∨ entry.imports = [] ∨
      (∃ later ∈ behind, Path.slashed later.path = Path.slashed entry.path ∧ later.imports ≠ []) ∨
      entry.imports.map Import.specifier =
        (importsAt before (Path.slashed entry.path)).map Import.specifier) := by
  have hnodes := hskip.ofFiles_eq behind
  -- Only what stands at the path of the entry can differ.
  have hother : ∀ path, path ≠ Path.slashed entry.path →
      (toProject ⟨before ++ entry :: behind⟩).importsOf path =
        (toProject ⟨before ++ behind⟩).importsOf path := by
    intro path hpath
    rw [importsOf_toProject, importsOf_toProject, importsAt_without]
    simp [ManifestEntry.hasImportsAt, Ne.symm hpath]
  subst hfull hpart
  refine ⟨Graph.files_build_congr hnodes, fun u hu => ?_, fun u hu hpath => ?_, ?_⟩
  · rw [Graph.recordsOf_build _ hu, importsOf_toProject]
  · have hsame := congrArg (List.map Import.specifier) (hother _ hpath)
    exact ⟨Graph.deps_build_congr hnodes hu hsame, Graph.recordsOf_build_congr hnodes hu hsame⟩
  · rw [Graph.build_eq_iff hnodes, ← specifiers_eq_iff, ← importsOf_toProject,
      ← importsOf_toProject]
    constructor
    · intro hsame
      by_cases hmem : Path.slashed entry.path ∈
          (Graph.build (toProject ⟨before ++ entry :: behind⟩)).paths
      · exact Or.inr (hsame _ hmem)
      · exact Or.inl hmem
    · intro hentry path hmem
      by_cases hpath : path = Path.slashed entry.path
      · subst hpath
        exact hentry.resolve_left (not_not_intro hmem)
      · rw [hother path hpath]

/-- An example: a file with an import. -/
def firstEntries : List ManifestEntry :=
  [⟨"lib/a.go", none, false, [.ofSpecifier "b.go"]⟩, ⟨"lib/b.go", none, false, []⟩]

/-- An example: the same file again, with another import. -/
def rivalEntry : ManifestEntry :=
  ⟨"lib\\a.go", none, false, [.ofSpecifier "c.go"]⟩

/-- An example: a directory with an import. -/
def directoryEntry : ManifestEntry :=
  ⟨"lib", none, true, [.ofSpecifier "c.go"]⟩

/-- An example: one more file. -/
def lastEntries : List ManifestEntry :=
  [⟨"lib/c.go", none, false, []⟩]

theorem skipped_entry_effect_rival :
    Skipped firstEntries rivalEntry ∧ Skipped firstEntries directoryEntry ∧
    (Graph.build (toProject ⟨firstEntries ++ rivalEntry :: lastEntries⟩)).files =
      (Graph.build (toProject ⟨firstEntries ++ lastEntries⟩)).files ∧
    Graph.build (toProject ⟨firstEntries ++ rivalEntry :: lastEntries⟩) ≠
      Graph.build (toProject ⟨firstEntries ++ lastEntries⟩) ∧
    Graph.build (toProject ⟨firstEntries ++ directoryEntry :: lastEntries⟩) =
      Graph.build (toProject ⟨firstEntries ++ lastEntries⟩) := by
  have hrival : Skipped firstEntries rivalEntry := by decide +kernel
  have hdirectory : Skipped firstEntries directoryEntry := by decide +kernel
  obtain ⟨hfiles, _, _, hsame⟩ := skipped_entry_effect _ lastEntries _ hrival rfl rfl
  obtain ⟨_, _, _, hsame'⟩ := skipped_entry_effect _ lastEntries _ hdirectory rfl rfl
  refine ⟨hrival, hdirectory, hfiles, fun heq => ?_, hsame'.2 (Or.inl (by decide +kernel))⟩
  exact absurd (hsame.1 heq) (by decide +kernel)

theorem rival_entry_changes_graph :
    Skipped firstEntries rivalEntry ∧
    (Graph.build (toProject ⟨firstEntries ++ rivalEntry :: lastEntries⟩)).deps 0 = [2] ∧
    (Graph.build (toProject ⟨firstEntries ++ lastEntries⟩)).deps 0 = [1] ∧
    (Graph.build (toProject ⟨firstEntries ++ rivalEntry :: lastEntries⟩)).records ≠
      (Graph.build (toProject ⟨firstEntries ++ lastEntries⟩)).records := by
  decide +kernel

end Manifest

end LayerLint
