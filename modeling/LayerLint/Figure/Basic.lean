import LayerLint.Graph.CycleWalk
import LayerLint.Graph.Reach

/-!
# Figures

What a drawing of a graph shows: which nodes, under which names and labels, and which edges of
which kind.
-/

namespace LayerLint

/-- What to draw. -/
structure DrawOptions where
  title : String := "Dependency Graph"
  /-- Whether nodes are coloured by layer. -/
  showLayers : Bool := true
  highlightViolations : Bool := true
  showCycles : Bool := true
  /-- The only layer to draw. -/
  onlyLayer : Option String := none
  /-- The number of steps from an entry file that are drawn; zero means all. -/
  maxDepth : Option Nat := none
  /-- Whether labels are shortened paths. -/
  shortLabels : Bool := false
  deriving DecidableEq, Repr

/-- What an edge is drawn as. -/
inductive EdgeKind where
  | normal
  | cycle
  | violation
  deriving DecidableEq, Repr

/-- The colours of a node. -/
structure Colors where
  border : String
  fill : String
  deriving DecidableEq, Repr

/-- The colours of the layers with well-known names. -/
def layerColors : String → Option Colors
  | "domain" => some ⟨"#2E7D32", "#C8E6C9"⟩
  | "application" => some ⟨"#1565C0", "#BBDEFB"⟩
  | "infrastructure" => some ⟨"#C62828", "#FFCDD2"⟩
  | "presentation" => some ⟨"#F57C00", "#FFE0B2"⟩
  | "api" => some ⟨"#6A1B9A", "#E1BEE7"⟩
  | "cmd" => some ⟨"#424242", "#E0E0E0"⟩
  | "internal" => some ⟨"#00695C", "#B2DFDB"⟩
  | _ => none

/-- A drawing of a graph. -/
structure Figure where
  graph : Graph
  layers : LayerMap
  options : DrawOptions
  /-- The nodes drawn, in order. -/
  nodes : List Nat
  /-- The place of each node among those drawn. -/
  slots : Array (Option Nat)
  /-- The targets of the edges from each node that lie on a reported cycle. -/
  cycleTargets : Array (List Nat)

namespace Figure

/-- The nodes of the layer to draw. -/
def layerNodes (g : Graph) (map : LayerMap) (options : DrawOptions) : List Nat :=
  g.nodes.filter fun node =>
    match options.onlyLayer with
    | some name => map.nameOf node == some name
    | none => true

/-- The nodes that a depth is counted from: those nobody depends on, else the first. -/
def entryNodes (g : Graph) (nodes : List Nat) : List Nat :=
  match nodes.filter (g.fanIn · == 0) with
  | [] => nodes.take 1
  | entries => entries

/-- The nodes within a number of steps from an entry node, along any nodes. -/
def nearNodes (g : Graph) (nodes : List Nat) (steps : Nat) : List Nat :=
  let near := Graph.within g.size g.deps steps (entryNodes g nodes)
  nodes.filter fun node => near[node]?.getD false

/-- The nodes to draw. -/
def drawnNodes (g : Graph) (map : LayerMap) (options : DrawOptions) : List Nat :=
  let nodes := layerNodes g map options
  match options.maxDepth with
  | none | some 0 => nodes
  | some steps => nearNodes g nodes steps

/-- The place of each node in a list. -/
def slotsOf (size : Nat) (nodes : List Nat) : Array (Option Nat) :=
  nodes.zipIdx.foldl (fun slots (node, slot) => slots.setIfInBounds node (some slot))
    (Array.replicate size none)

/-- Adds an edge to those marked, once. -/
def markEdge (targets : Array (List Nat)) (edge : Nat × Nat) : Array (List Nat) :=
  targets.modify edge.1 fun known => if known.contains edge.2 then known else edge.2 :: known

/-- The edges of the cycles that the walk reports, by source. -/
def cycleTargetsOf (g : Graph) : Array (List Nat) :=
  g.cycles.foldl (fun targets cycle => cycle.edges.foldl markEdge targets)
    (Array.replicate g.size [])

/-- The drawing of a graph. -/
def draw (g : Graph) (map : LayerMap) (options : DrawOptions) : Figure :=
  let nodes := drawnNodes g map options
  { graph := g
    layers := map
    options
    nodes
    slots := slotsOf g.size nodes
    cycleTargets := if options.showCycles then cycleTargetsOf g else #[] }

/-- The name of a node, if it is drawn. -/
def id? (f : Figure) (node : Nat) : Option String :=
  (f.slots[node]?.join).map fun slot => s!"n{slot}"

/-- The name of a node, empty if it is not drawn. -/
def id (f : Figure) (node : Nat) : String :=
  (f.id? node).getD ""

/-- The label of a node. -/
def label (f : Figure) (node : Nat) : String :=
  if f.options.shortLabels then Path.shorten (f.graph.path node) else f.graph.path node

/-- The kind of an edge. A cycle hides a violation. -/
def edgeKind (f : Figure) (source target : Nat) : EdgeKind :=
  if f.options.showCycles && (f.cycleTargets[source]?.getD []).contains target then .cycle
  else if f.options.highlightViolations && f.layers.isViolation source target then .violation
  else .normal

/-- The edges drawn from a node. -/
def edgesFrom (f : Figure) (node : Nat) : List (Nat × EdgeKind) :=
  ((f.graph.deps node).filter fun target => (f.id? target).isSome).map fun target =>
    (target, f.edgeKind node target)

/-- The colours of a node's layer, when layers are shown. -/
def colors (f : Figure) (node : Nat) : Option Colors :=
  if f.options.showLayers then (f.layers.nameOf node).bind layerColors else none

/-- Whether a node has a layer. -/
def isAssigned (f : Figure) (node : Nat) : Bool :=
  (f.layers.layerOf node).isSome

/-- The names of the declared layers. -/
def layerNames (f : Figure) : List String :=
  f.layers.layers.map Layer.name

end Figure

end LayerLint
