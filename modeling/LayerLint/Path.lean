import LayerLint.Text.Split

/-!
# Paths

A path is a text whose segments stand between slashes. Everything here is lexical: no file is
looked at.
-/

namespace LayerLint.Path

/-- The path with every backslash written as a slash. -/
def slashed (path : String) : String :=
  String.ofList (path.toList.map fun c => if c = '\\' then '/' else c)

/-- What follows the last slash. -/
def baseName (path : String) : String :=
  String.ofList (path.toList.reverse.takeWhile (· ≠ '/')).reverse

/-- What precedes the last slash; nothing when there is none. -/
def parent (path : String) : String :=
  String.ofList ((path.toList.reverse.dropWhile (· ≠ '/')).drop 1).reverse

/-! ## Clean joins -/

/-- The segment that stays where it is. -/
def here : List Char := ['.']

/-- The segment that climbs to the parent. -/
def up : List Char := ['.', '.']

/-- Follows one segment from a place given by its segments, innermost first. Climbing takes a
proper segment away, stays put at the root, and is kept where there is nothing to take away. -/
def follow (rooted : Bool) (place : List (List Char)) (segment : List Char) : List (List Char) :=
  if segment = [] ∨ segment = here then place
  else if segment = up then
    match place with
    | [] => if rooted then [] else [up]
    | inner :: outer => if inner = up then (if rooted then place else up :: place) else outer
  else segment :: place

/-- Writes a place down. -/
def render (rooted : Bool) (place : List (List Char)) : List Char :=
  let body := Text.joinWith ['/'] place.reverse
  if rooted then '/' :: body else if body.isEmpty then here else body

/-- Whether joining `rel` to `dir` starts at the root. -/
def isRooted (dir rel : List Char) : Bool :=
  dir.head? == some '/' || (dir.isEmpty && rel.head? == some '/')

/-- `joinClean` on characters. -/
def joinCleanChars (dir rel : List Char) : List Char :=
  let rooted := isRooted dir rel
  render rooted ((Text.splitOn '/' dir ++ Text.splitOn '/' rel).foldl (follow rooted) [])

/-- The path reached by following `rel` from `dir`, with no empty and no `.` segment, and with
`..` only in front. -/
def joinClean (dir rel : String) : String :=
  String.ofList (joinCleanChars dir.toList rel.toList)

/-! ## Short forms -/

/-- The last two segments of a path, after a leading `./` is dropped. -/
def shorten (path : String) : String :=
  let cs := path.toList
  let cs := ((['.', '/'] : List Char).isPrefixOf? cs).getD cs
  let segments := Text.splitOn '/' cs
  String.ofList (Text.joinWith ['/'] (segments.drop (segments.length - 2)))

end LayerLint.Path
