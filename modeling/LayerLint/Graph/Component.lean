import LayerLint.Graph.Basic
import LayerLint.Graph.Reach

/-!
# Components

The groups of two or more nodes that reach each other along edges.
-/

namespace LayerLint

/-- A group of nodes that reach each other, in order, with their paths. -/
structure Component where
  nodes : List Nat
  files : List String
  deriving DecidableEq, Repr

namespace Graph

/-- Adds a value to the list at a place. -/
def consAt (lists : Array (List Nat)) (place value : Nat) : Array (List Nat) :=
  lists.modify place (value :: ·)

/-- The targets of the edges from each node. -/
def targets (g : Graph) : Array (List Nat) :=
  g.edges.foldl (fun lists (source, target) => consAt lists source target)
    (Array.replicate g.size [])

/-- The sources of the edges to each node. -/
def sources (g : Graph) : Array (List Nat) :=
  g.edges.foldl (fun lists (source, target) => consAt lists target source)
    (Array.replicate g.size [])

/-- The nodes that reach a node and are reached from it. -/
def mutuals (size : Nat) (targets sources : Array (List Nat)) (node : Nat) : List Nat :=
  let after := reachable size (fun v => targets[v]?.getD []) node
  let before := reachable size (fun v => sources[v]?.getD []) node
  (List.range size).filter fun v => after[v]?.getD false && before[v]?.getD false

/-- The groups of nodes that reach each other, by their first node. -/
def groups (g : Graph) : List (List Nat) :=
  let targets := g.targets
  let sources := g.sources
  let grow := fun (groups : List (List Nat)) node =>
    if groups.any (·.contains node) then groups
    else
      let group := mutuals g.size targets sources node
      if group.length > 1 then group :: groups else groups
  (g.nodes.foldl grow []).reverse

/-- The components, by their first node. -/
def components (g : Graph) : List Component :=
  g.groups.map fun nodes => { nodes, files := nodes.map g.path }

/-- Whether each node is on a cycle. -/
def cyclicNodes (g : Graph) : Array Bool :=
  g.components.foldl
    (fun flags component => component.nodes.foldl (fun flags v => flags.setIfInBounds v true) flags)
    (Array.replicate g.size false)

end Graph

end LayerLint
