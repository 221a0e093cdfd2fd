/-!
# Reachable nodes

A search in rounds: each round marks the unmarked successors of the nodes marked in the round
before, so that after `n` rounds exactly the nodes within `n` steps are marked.
-/

namespace LayerLint.Graph

/-- Marks a node and adds it to the fresh ones, unless it is marked or out of range. -/
def markFresh (state : Array Bool × List Nat) (node : Nat) : Array Bool × List Nat :=
  if state.1[node]?.getD true then state else (state.1.setIfInBounds node true, node :: state.2)

/-- Runs rounds of the search from the nodes marked last. -/
def spread (next : Nat → List Nat) : (rounds : Nat) → Array Bool → List Nat → Array Bool
  | 0, marked, _ => marked
  | _ + 1, marked, [] => marked
  | rounds + 1, marked, frontier =>
    let (marked, fresh) := (frontier.flatMap next).foldl markFresh (marked, [])
    spread next rounds marked fresh

/-- The nodes among the first `size` within a number of steps from the starts, as marks. -/
def within (size : Nat) (next : Nat → List Nat) (rounds : Nat) (starts : List Nat) : Array Bool :=
  let (marked, fresh) := starts.foldl markFresh (Array.replicate size false, [])
  spread next rounds marked fresh

/-- The nodes among the first `size` that can be reached from a node, itself included. No shortest
way has more steps than there are nodes. -/
def reachable (size : Nat) (next : Nat → List Nat) (start : Nat) : Array Bool :=
  within size next size [start]

end LayerLint.Graph
