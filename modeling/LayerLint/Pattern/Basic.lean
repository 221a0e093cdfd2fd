import LayerLint.Path
import LayerLint.Pattern.Glob

/-!
# Path patterns

A pattern selects files by their path. Three forms are told apart, in this order: everything under
a stem (`stem/**`), everything at an ending (`**/ending`), and a glob, tried on the base name and on
the whole path. In a glob, stars that stand together count as one.
-/

namespace LayerLint

/-- A way to decide whether a path matches a pattern. -/
abbrev Matcher := (path pattern : String) → Bool

/-- A pattern by its form. -/
inductive Pattern where
  /-- The paths that start with a stem. -/
  | under (stem : List Char)
  /-- The paths that end with a text, or hold it right after a slash. -/
  | ending (text : List Char)
  /-- The paths that a glob stands for, whole or by their base name. -/
  | glob (tokens : List Pattern.Token)
  /-- No path at all. -/
  | never

namespace Pattern

/-- Writes stars that stand together as one. -/
def collapseStars : List Char → List Char
  | [] => []
  | c :: cs => if c = '*' ∧ cs.head? = some '*' then collapseStars cs else c :: collapseStars cs

/-- Reads a pattern. -/
def read (pattern : String) : Pattern :=
  let cs := (Path.slashed pattern).toList
  match ['/', '*', '*'].isSuffixOf? cs with
  | some stem => .under stem
  | none =>
    match ['*', '*', '/'].isPrefixOf? cs with
    | some text => .ending text
    | none => (readTokens (collapseStars cs)).elim .never .glob

/-- Whether a path whose segments stand between slashes matches. -/
def accepts (path : String) : Pattern → Bool
  | .under stem => stem.isPrefixOf path.toList
  | .ending text => text.isSuffixOf path.toList || Text.occursIn ('/' :: text) path.toList
  | .glob tokens =>
    tokensMatch tokens (Path.baseName path).toList || tokensMatch tokens path.toList
  | .never => false

/-- Whether a path matches a pattern. -/
def isMatch : Matcher :=
  fun path pattern => (read pattern).accepts (Path.slashed path)

/-- Whether a path is the pattern itself. -/
def isSame : Matcher :=
  fun path pattern => path == pattern

end Pattern

end LayerLint
