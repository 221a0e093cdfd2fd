import LayerLint.Graph.Resolve
import LayerLint.Project.Basic

/-!
# Import graphs

The files of a project as nodes, numbered in walk order, and an edge from each file to each other
file that it imports.
-/

namespace LayerLint

/-- An import with the file it stands for, if it stands for one. -/
structure ImportRecord where
  source : String
  raw : String
  resolved : Option String
  deriving DecidableEq, Repr

/-- A graph of imports. -/
structure Graph where
  /-- The file of each node. -/
  files : Array SourceFile := #[]
  /-- The nodes each node depends on, in the order of its imports. -/
  dependencies : Array (List Nat) := #[]
  /-- The edges in the order they were found. -/
  edges : Array (Nat × Nat) := #[]
  /-- The imports of all nodes, resolved or not. -/
  records : Array ImportRecord := #[]
  deriving Repr

namespace Graph

/-- The number of nodes. -/
def size (g : Graph) : Nat :=
  g.files.size

/-- The nodes, in walk order. -/
def nodes (g : Graph) : List Nat :=
  List.range g.size

/-- The paths of all nodes, in walk order. -/
def paths (g : Graph) : List String :=
  g.files.toList.map SourceFile.path

/-- The path of a node. -/
def path (g : Graph) (node : Nat) : String :=
  (g.files[node]?.map SourceFile.path).getD ""

/-- The language of a node's file. -/
def language (g : Graph) (node : Nat) : Language :=
  .ofPath (g.path node)

/-- The node of a path. -/
def node? (g : Graph) (path : String) : Option Nat :=
  g.files.findIdx? (·.path == path)

/-- The nodes that a node depends on. -/
def deps (g : Graph) (node : Nat) : List Nat :=
  g.dependencies[node]?.getD []

/-- The number of nodes that a node depends on. -/
def outDegree (g : Graph) (node : Nat) : Nat :=
  (g.deps node).length

/-- The number of nodes that depend on a node. -/
def fanIn (g : Graph) (node : Nat) : Nat :=
  g.edges.toList.countP (·.2 == node)

/-- Whether there is an edge. -/
def hasEdge (g : Graph) (source target : Nat) : Bool :=
  g.edges.toList.contains (source, target)

/-- The paths that the file at a path depends on. -/
def dependencyPaths (g : Graph) (path : String) : List String :=
  match g.node? path with
  | some node => (g.deps node).map g.path
  | none => []

/-- The imports that stand for no file. -/
def unresolved (g : Graph) : List ImportRecord :=
  g.records.toList.filter (·.resolved.isNone)

/-! ## Building -/

/-- Adds a node for a file, unless it is a directory or its path has a node. -/
def addFile (g : Graph) (file : SourceFile) : Graph :=
  if file.isDirectory || g.files.any (·.path == file.path) then g
  else { g with files := g.files.push file, dependencies := g.dependencies.push [] }

/-- Records an import of a node, and the edge it makes when it stands for another file that the
node does not depend on yet. -/
def addImport (known : List String) (node : Nat) (g : Graph) (import_ : Import) : Graph :=
  let resolved := resolveImport known import_.specifier (g.path node)
  let g := { g with records := g.records.push ⟨g.path node, import_.specifier, resolved⟩ }
  match resolved.bind g.node? with
  | none => g
  | some target =>
    if target = node ∨ target ∈ g.deps node then g
    else { g with
      dependencies := g.dependencies.modify node (· ++ [target])
      edges := g.edges.push (node, target) }

/-- The nodes of a project, without edges. -/
def ofFiles (files : List SourceFile) : Graph :=
  files.foldl addFile {}

/-- The graph of a project. -/
def build (project : Project) : Graph :=
  let g := ofFiles project.files
  let known := g.paths
  g.nodes.foldl (fun g node => (project.importsOf (g.path node)).foldl (addImport known node) g) g

end Graph

end LayerLint
