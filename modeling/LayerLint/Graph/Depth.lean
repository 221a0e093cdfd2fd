import LayerLint.Graph.Component

/-!
# Depth of import chains

The depth of a file is the length of the chains of imports that start at it, found by a
depth-first walk that keeps each depth it has finished. A dependency on the current path counts
nothing, so within a cycle the depth hangs on where the walk came in.
-/

namespace LayerLint

/-- The depths found so far. They are kept from one question to the next. -/
structure DepthTable where
  /-- The depth of each node that is finished. -/
  known : Array (Option Nat)
  /-- Whether each node is on the path of a walk. -/
  onPath : Array Bool
  deriving DecidableEq, Repr

namespace DepthTable

/-- A node on the path with the dependencies still to look at and the greatest depth among those
looked at. -/
structure Frame where
  node : Nat
  pending : List Nat
  deepest : Nat
  deriving DecidableEq, Repr

/-- A walk under way. -/
structure Walk where
  table : DepthTable
  /-- The nodes on the path, innermost first. -/
  frames : List Frame
  deriving DecidableEq, Repr

/-- The table that knows nothing. -/
def empty (g : Graph) : DepthTable :=
  { known := Array.replicate g.size none, onPath := Array.replicate g.size false }

/-- The depth of a node, if it is finished. -/
def depth? (table : DepthTable) (node : Nat) : Option Nat :=
  table.known[node]?.join

namespace Walk

/-- Goes on to a node. -/
def enter (g : Graph) (w : Walk) (node : Nat) : Walk :=
  { table := { w.table with onPath := w.table.onPath.setIfInBounds node true }
    frames := ⟨node, g.deps node, 0⟩ :: w.frames }

/-- The frames after the innermost learns of a dependency's depth. -/
def learn (depth : Nat) : List Frame → List Frame
  | [] => []
  | frame :: outer => { frame with deepest := max frame.deepest depth } :: outer

/-- Finishes the innermost node with its depth. -/
def finish (w : Walk) (node depth : Nat) (outer : List Frame) : Walk :=
  { table :=
      { known := w.table.known.setIfInBounds node (some depth)
        onPath := w.table.onPath.setIfInBounds node false }
    frames := learn depth outer }

/-- Looks at one dependency of the innermost node. -/
def look (g : Graph) (w : Walk) (target : Nat) : Walk :=
  match w.table.depth? target with
  | some depth => { w with frames := learn depth w.frames }
  | none => if w.table.onPath[target]?.getD true then w else w.enter g target

/-- One step of the walk. -/
def step (g : Graph) (w : Walk) : Walk :=
  match w.frames with
  | [] => w
  | ⟨node, [], deepest⟩ :: outer =>
    w.finish node (if (g.deps node).isEmpty then 0 else deepest + 1) outer
  | ⟨node, target :: pending, deepest⟩ :: outer =>
    { w with frames := ⟨node, pending, deepest⟩ :: outer }.look g target

/-- Runs steps until every node of the path is finished. -/
def run (g : Graph) : (steps : Nat) → Walk → Walk
  | 0, w => w
  | steps + 1, w => if w.frames.isEmpty then w else run g steps (w.step g)

end Walk

/-- A number of steps that no walk exceeds: each node is finished at most once, and each dependency
is looked at at most once. -/
def stepBound (g : Graph) : Nat :=
  g.size + g.dependencies.toList.flatten.length

/-- The depth of a node, and the table that knows it. -/
def depth (g : Graph) (table : DepthTable) (node : Nat) : Nat × DepthTable :=
  match table.depth? node with
  | some depth => (depth, table)
  | none =>
    let w := Walk.run g (stepBound g) (Walk.enter g ⟨table, []⟩ node)
    ((w.table.depth? node).getD 0, w.table)

/-- The depth of the file at a path. -/
def depthOf (g : Graph) (table : DepthTable) (path : String) : Option Nat × DepthTable :=
  match g.node? path with
  | some node =>
    let (depth, table) := table.depth g node
    (some depth, table)
  | none => (none, table)

end DepthTable

/-- The depth of a node, and whether it is on a cycle. -/
structure FileDepth where
  node : Nat
  depth : Nat
  inCycle : Bool
  deriving DecidableEq, Repr

/-- The depths of all nodes, in order. -/
structure DepthReport where
  entries : List FileDepth
  deriving DecidableEq, Repr

namespace DepthReport

/-- The greatest depth. -/
def maxDepth (report : DepthReport) : Nat :=
  report.entries.foldl (fun deepest entry => max deepest entry.depth) 0

/-- The entries deeper than a limit. -/
def exceeding (report : DepthReport) (limit : Nat) : List FileDepth :=
  report.entries.filter (limit < ·.depth)

end DepthReport

namespace DepthTable

/-- The depths of all nodes, asked in order. -/
def report (g : Graph) (table : DepthTable) : DepthReport × DepthTable :=
  let cyclic := g.cyclicNodes
  let ask := fun (entries, table) node =>
    let (depth, table) := depth g table node
    (⟨node, depth, cyclic[node]?.getD false⟩ :: entries, table)
  let (entries, table) := g.nodes.foldl ask ([], table)
  (⟨entries.reverse⟩, table)

end DepthTable

namespace Graph

/-- The depths of all nodes of a graph. -/
def depths (g : Graph) : DepthReport :=
  (DepthTable.report g (.empty g)).1

end Graph

end LayerLint
