import LayerLint.Text.Split

/-!
# Locations

Paths on a disk, taken as they are written: their parents, and names below them.
-/

namespace LayerLint.Location

/-- The path of a name below a directory. -/
def below (dir name : String) : String :=
  if name.toList.head? == some '/' || dir.isEmpty then name
  else if dir.toList.getLast? == some '/' then dir ++ name
  else dir ++ "/" ++ name

/-- Cuts a path into what it starts from, the root or the point of the working directory, and the
rest. -/
def cutLead : List Char → List Char × List Char
  | '/' :: rest => (['/'], rest)
  | ['.'] => (['.'], [])
  | '.' :: '/' :: rest => (['.'], '/' :: rest)
  | cs => ([], cs)

/-- Whether a segment leads nowhere. -/
def isIdle (segment : List Char) : Bool :=
  segment.isEmpty || segment == ['.']

/-- Segments without the idle ones at the end. -/
def trimIdle (segments : List (List Char)) : List (List Char) :=
  (segments.reverse.dropWhile isIdle).reverse

/-- The path without its last segment; the root and the empty path have no parent. -/
def parent? (path : String) : Option String :=
  let (lead, rest) := cutLead path.toList
  match trimIdle (Text.splitOn '/' rest) with
  | [] => if lead = ['.'] then some "" else none
  | segments =>
    some (String.ofList (lead ++ Text.joinWith ['/'] (trimIdle segments.dropLast)))

/-- The chain of parents, with a bound on its length. -/
def chain : Nat → String → List String
  | 0, path => [path]
  | bound + 1, path =>
    match parent? path with
    | some parent => path :: chain bound parent
    | none => [path]

/-- A path, its parent, and so on up. Each parent is shorter than its path. -/
def ancestors (path : String) : List String :=
  chain path.length path

end LayerLint.Location
