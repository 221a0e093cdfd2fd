import LayerLint.Json.Number
import LayerLint.Json.Reader
import LayerLint.Project.Basic

/-!
# Manifests

A manifest is a JSON text that lists the entries of a project in walk order, each with its imports.
An import is a specifier alone or a record.
-/

namespace LayerLint

/-- An entry of a manifest. -/
structure ManifestEntry where
  path : String
  absolutePath : Option String
  isDirectory : Bool
  imports : List Import
  deriving DecidableEq, Repr

/-- The entries of a manifest, in order. -/
structure Manifest where
  files : List ManifestEntry
  deriving DecidableEq, Repr

/-! ## Imports -/

namespace Json

mutual

/-- Whether all of a value can be kept: its texts are spelled out, its numbers are in range, and it
nests no deeper than a bound. -/
def isKeepable : (levels : Nat) → Json → Bool
  | _, .garbled => false
  | _, .num literal => inRange literal
  | 0, .arr _ => false
  | levels + 1, .arr items => areKeepable levels items
  | 0, .obj _ => false
  | levels + 1, .obj fields => areFieldsKeepable levels fields
  | _, _ => true

/-- Whether all of some values can be kept. -/
def areKeepable (levels : Nat) : List Json → Bool
  | [] => true
  | item :: rest => isKeepable levels item && areKeepable levels rest

/-- Whether all of some fields can be kept. -/
def areFieldsKeepable (levels : Nat) : List (String × Json) → Bool
  | [] => true
  | (_, value) :: rest => isKeepable levels value && areFieldsKeepable levels rest

end

end Json

/-- The levels that an import may nest, where a document may nest one hundred and twenty-seven and
an import stands at the fourth. -/
def Import.levels : Nat := 123

/-- Reads an import. It is kept as a whole before its form is known, so no part of it may be beyond
keeping. -/
def Import.ofJson? (value : Json) : Option Import :=
  match value with
  | .str specifier => some (.ofSpecifier specifier)
  | _ =>
    if value.isKeepable Import.levels then do
      let [specifier, hint] ← value.record? ["specifier", "is_relative_hint"] | none
      return {
        specifier := ← specifier.bind Json.text?
        relativeHint := ← Json.defaulted Json.bool? false hint }
    else none

/-! ## Manifests -/

/-- Reads an entry. -/
def ManifestEntry.ofJson? (value : Json) : Option ManifestEntry := do
  let [path, absolutePath, isDirectory, imports] ←
    value.record? ["path", "absolute_path", "is_directory", "imports"] | none
  return {
    path := ← path.bind Json.text?
    absolutePath := ← Json.defaulted (Json.nullable Json.text?) none absolutePath
    isDirectory := ← Json.defaulted Json.bool? false isDirectory
    imports := ← Json.defaulted (fun v => do (← v.items?).mapM Import.ofJson?) [] imports }

namespace Manifest

/-- Reads a manifest from a value. -/
def ofJson? (value : Json) : Option Manifest := do
  let [files] ← value.record? ["files"] | none
  return {
    files := ← Json.defaulted (fun v => do (← v.items?).mapM ManifestEntry.ofJson?) [] files }

/-- Reads a manifest from text. -/
def parse? (text : String) : Option Manifest := do
  ofJson? (← Json.parse? text)

/-- Adds an entry to a project. Imports are set even where the entry is a directory or repeats a
path, and stand in place of those set before. -/
def addEntry (project : Project) (entry : ManifestEntry) : Project :=
  let file : SourceFile :=
    { path := Path.slashed entry.path
      absolutePath := entry.absolutePath
      isDirectory := entry.isDirectory }
  let project :=
    if entry.imports.isEmpty then project else project.setImports file.path entry.imports
  project.push file

/-- The project that a manifest lists. -/
def toProject (manifest : Manifest) : Project :=
  manifest.files.foldl addEntry {}

end Manifest

end LayerLint
