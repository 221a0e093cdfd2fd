import LayerLint.Graph.Cycle
import LayerLint.Layer

/-!
# Finding cycles

A depth-first walk from each node in turn. An edge to a node on the current path closes a cycle,
which is reported once, at that edge; an edge to a node that was left before closes none.
-/

namespace LayerLint

namespace CycleWalk

/-- A node on the current path with the dependencies still to look at. -/
structure Frame where
  node : Nat
  pending : List Nat
  deriving DecidableEq, Repr

/-- A walk under way. -/
structure State where
  /-- The nodes still to start from. -/
  roots : List Nat
  /-- The nodes entered and not left, innermost first. -/
  frames : List Frame
  /-- The nodes entered and not left, outermost first. -/
  path : Array Nat
  /-- Whether each node has been entered. -/
  visited : Array Bool
  /-- Whether each node is on the path. -/
  onPath : Array Bool
  /-- Where on the path each node was put. -/
  position : Array Nat
  /-- The cycles found. -/
  found : Array (List Nat)
  deriving Repr

namespace State

/-- The walk before its first step. -/
def initial (g : Graph) : State :=
  { roots := g.nodes
    frames := []
    path := #[]
    visited := Array.replicate g.size false
    onPath := Array.replicate g.size false
    position := Array.replicate g.size 0
    found := #[] }

/-- Goes on to a node. -/
def enter (g : Graph) (s : State) (node : Nat) : State :=
  { s with
    frames := ⟨node, g.deps node⟩ :: s.frames
    visited := s.visited.setIfInBounds node true
    onPath := s.onPath.setIfInBounds node true
    position := s.position.setIfInBounds node s.path.size
    path := s.path.push node }

/-- Goes back from the innermost node. -/
def leave (s : State) (node : Nat) (outer : List Frame) : State :=
  { s with
    frames := outer
    onPath := s.onPath.setIfInBounds node false
    path := s.path.pop }

/-- Reports the cycle that an edge to a node of the path closes. -/
def close (s : State) (node : Nat) : State :=
  { s with found := s.found.push (s.path.toList.drop (s.position[node]?.getD 0)) }

/-- Looks at one dependency of the innermost node. -/
def look (g : Graph) (included : Nat → Bool) (s : State) (target : Nat) : State :=
  if !included target then s
  else if s.onPath[target]?.getD false then s.close target
  else if s.visited[target]?.getD true then s
  else s.enter g target

/-- Starts from a node, unless it was entered before. -/
def start (g : Graph) (included : Nat → Bool) (s : State) (root : Nat) : State :=
  if s.visited[root]?.getD true || !included root then s else s.enter g root

/-- One step of the walk through the included nodes. -/
def step (g : Graph) (included : Nat → Bool) (s : State) : State :=
  match s.frames with
  | [] =>
    match s.roots with
    | [] => s
    | root :: roots => { s with roots }.start g included root
  | ⟨node, []⟩ :: outer => s.leave node outer
  | ⟨node, target :: pending⟩ :: outer =>
    { s with frames := ⟨node, pending⟩ :: outer }.look g included target

/-- Whether the walk is over: nothing is left to do, or one cycle was asked for and found. -/
def isOver (onlyFirst : Bool) (s : State) : Bool :=
  (s.roots.isEmpty && s.frames.isEmpty) || (onlyFirst && !s.found.isEmpty)

/-- Runs steps until the walk is over. -/
def run (g : Graph) (included : Nat → Bool) (onlyFirst : Bool) : (steps : Nat) → State → State
  | 0, s => s
  | steps + 1, s =>
    if s.isOver onlyFirst then s else run g included onlyFirst steps (s.step g included)

end State

/-- A number of steps that no walk exceeds: each node is started from once and left at most once,
and each dependency is looked at at most once. -/
def stepBound (g : Graph) : Nat :=
  2 * g.size + g.dependencies.toList.flatten.length

/-- The walk through the included nodes. -/
def walk (g : Graph) (included : Nat → Bool) (onlyFirst : Bool) : List Cycle :=
  let s := State.run g included onlyFirst (stepBound g) (.initial g)
  s.found.toList.map (Cycle.ofNodes g)

end CycleWalk

namespace Graph

/-- The cycles of a graph, one for each edge that closes one on the walk. -/
def cycles (g : Graph) : List Cycle :=
  CycleWalk.walk g (fun _ => true) false

/-- Whether a graph has a cycle. The walk stops at the first. -/
def hasCycle (g : Graph) : Bool :=
  !(CycleWalk.walk g (fun _ => true) true).isEmpty

/-- The cycles that stay in the layer of this name. -/
def cyclesInLayer (g : Graph) (map : LayerMap) (name : String) : List Cycle :=
  CycleWalk.walk g (fun node => map.nameOf node == some name) false

end Graph

end LayerLint
