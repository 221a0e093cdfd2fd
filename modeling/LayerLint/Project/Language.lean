import LayerLint.Path

/-!
# Languages of source files
-/

namespace LayerLint

/-- The language a file is written in. -/
inductive Language where
  | go
  | python
  | typescript
  | javascript
  | java
  | csharp
  | cpp
  | rust
  | unknown
  deriving DecidableEq, Repr

namespace Language

/-- The language of an extension. -/
def ofExtension : String → Language
  | "go" => .go
  | "py" => .python
  | "ts" | "tsx" => .typescript
  | "js" | "jsx" | "mjs" | "cjs" => .javascript
  | "java" => .java
  | "cs" => .csharp
  | "cpp" | "cc" | "cxx" | "hpp" | "h" => .cpp
  | "rs" => .rust
  | _ => .unknown

/-- The language of a file, by what follows the last point of its base name. -/
def ofPath (path : String) : Language :=
  let reversed := (Path.baseName path).toList.reverse
  if reversed.contains '.' then
    ofExtension (String.ofList (reversed.takeWhile (· ≠ '.')).reverse)
  else .unknown

/-- The name of a language. -/
def tag : Language → String
  | .go => "go"
  | .python => "python"
  | .typescript => "typescript"
  | .javascript => "javascript"
  | .java => "java"
  | .csharp => "csharp"
  | .cpp => "cpp"
  | .rust => "rust"
  | .unknown => "unknown"

end Language

end LayerLint
