import LayerLint.Path
import LayerLint.Text.Blank

/-!
# Resolving imports

Which known file an import stands for. An exact path wins. An import that starts with a point is
followed from the directory of the importing file. Any other stands for the first known file whose
path ends with it.
-/

namespace LayerLint

/-- The extensions that an import may leave out, in the order they are tried. -/
def sourceExtensions : List String :=
  [".go", ".py", ".ts", ".js", ".java", ".cs", ".cpp", ".hpp"]

/-- The known file that an import of `source` stands for. -/
def resolveImport (known : List String) (raw source : String) : Option String :=
  if Text.isBlankText raw then none
  else if raw ∈ known then some raw
  else if raw.toList.head? = some '.' then
    let target := Path.joinClean (Path.parent source) raw
    (target :: sourceExtensions.map (target ++ ·)).find? (· ∈ known)
  else known.find? fun path => Text.endsWith path raw

end LayerLint
