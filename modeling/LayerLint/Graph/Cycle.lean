import LayerLint.Graph.Basic

/-!
# Cycles

A cycle lists its nodes so that each depends on the next and the last on the first.
-/

namespace LayerLint

/-- A cycle of imports, with the paths of its nodes. -/
structure Cycle where
  nodes : List Nat
  files : List String
  deriving DecidableEq, Repr

namespace Cycle

/-- The cycle through nodes of a graph. -/
def ofNodes (g : Graph) (nodes : List Nat) : Cycle :=
  { nodes, files := nodes.map g.path }

/-- The file whose import closes the cycle. -/
def closingFile (cycle : Cycle) : Option String :=
  cycle.files.getLast?

/-- The edges of the cycle, the closing one last. -/
def edges (cycle : Cycle) : List (Nat × Nat) :=
  cycle.nodes.zip (cycle.nodes.drop 1 ++ cycle.nodes.take 1)

/-- Whether two cycles list the same nodes from different starts. The lists are aligned at the
first place where the second holds the first node of the first. -/
def isRotationOf (cycle other : Cycle) : Bool :=
  cycle.nodes.length == other.nodes.length &&
    match cycle.nodes with
    | [] => true
    | start :: _ =>
      match other.nodes.findIdx? (· == start) with
      | none => false
      | some offset => cycle.nodes == other.nodes.drop offset ++ other.nodes.take offset

/-- The files in order, back to the first. -/
def text (cycle : Cycle) : String :=
  String.join (cycle.files.map (· ++ " -> ")) ++ cycle.files.headD ""

end Cycle

end LayerLint
