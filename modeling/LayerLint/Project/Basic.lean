import LayerLint.Assoc
import LayerLint.Project.Language

/-!
# Projects

A project is what a walk over a source tree found: its entries, in walk order, and the imports of
each file, kept under the file's slashed path.
-/

namespace LayerLint

/-- An entry of the source tree. -/
structure SourceFile where
  /-- Path from the project's root, with slashes. -/
  path : String
  absolutePath : Option String := none
  isDirectory : Bool := false
  deriving DecidableEq, Repr

namespace SourceFile

/-- The file at a path. -/
def ofPath (path : String) : SourceFile :=
  { path := Path.slashed path }

/-- The directory at a path. -/
def directory (path : String) : SourceFile :=
  { ofPath path with isDirectory := true }

/-- The language the file is written in. -/
def language (file : SourceFile) : Language :=
  .ofPath file.path

end SourceFile

/-- An import as a file spells it. -/
structure Import where
  specifier : String
  relativeHint : Bool
  deriving DecidableEq, Repr

/-- The import of a specifier; a leading point hints that it is relative. -/
def Import.ofSpecifier (specifier : String) : Import :=
  { specifier, relativeHint := specifier.toList.head? == some '.' }

/-- The entries of a source tree and the imports of its files. -/
structure Project where
  files : List SourceFile := []
  imports : Assoc (List Import) := []
  deriving DecidableEq, Repr

namespace Project

/-- Adds an entry. -/
def push (project : Project) (file : SourceFile) : Project :=
  { project with files := project.files ++ [file] }

/-- Sets the imports of a file, in place of those it had. -/
def setImports (project : Project) (path : String) (imports : List Import) : Project :=
  { project with imports := project.imports.set (Path.slashed path) imports }

/-- Adds a file with its imports. A file added without imports leaves those recorded under its
path before. -/
def addFile (project : Project) (path : String) (imports : List Import) : Project :=
  let project := if imports.isEmpty then project else project.setImports path imports
  project.push (.ofPath path)

/-- The imports recorded under a path, which is taken as it is. -/
def importsOf (project : Project) (path : String) : List Import :=
  (project.imports.get? path).getD []

end Project

end LayerLint
