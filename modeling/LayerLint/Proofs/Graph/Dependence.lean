import Mathlib.Data.List.Chain
import Mathlib.Logic.Relation
import LayerLint.Graph.Cycle

/-!
# Dependence

What it means for a file to depend on another, directly or through others, and for files to depend
on each other in a circle. These notions read the dependency lists only; the searches of the other
modules are measured against them.
-/

namespace LayerLint

namespace Graph

/-- A node depends directly on another. -/
def DependsOn (g : Graph) (source target : Nat) : Prop :=
  target ∈ g.deps source

/-- A node gets to another along dependencies, in any number of steps. -/
def Reaches (g : Graph) (source target : Nat) : Prop :=
  Relation.ReflTransGen g.DependsOn source target

/-- A nonempty list of nodes, each of which depends on the next and the last on the first. -/
def IsCycle (g : Graph) : List Nat → Prop
  | [] => False
  | first :: rest => List.IsChain g.DependsOn (first :: rest ++ [first])

/-- No list of nodes is a cycle. -/
def Acyclic (g : Graph) : Prop :=
  ∀ nodes, ¬g.IsCycle nodes

/-- The graph without some edges. -/
def without (g : Graph) (removed : List (Nat × Nat)) : Graph :=
  { g with
    dependencies := g.dependencies.mapIdx fun node targets =>
      targets.filter fun target => (node, target) ∉ removed
    edges := g.edges.filter (· ∉ removed) }

variable {g : Graph} {nodes : List Nat} {u v : Nat}

instance : Decidable (g.DependsOn u v) :=
  inferInstanceAs (Decidable (v ∈ g.deps u))

instance : Decidable (g.IsCycle nodes) :=
  match nodes with
  | [] => .isFalse id
  | first :: rest =>
      inferInstanceAs (Decidable (List.IsChain g.DependsOn (first :: rest ++ [first])))

theorem IsCycle.ne_nil (h : g.IsCycle nodes) : nodes ≠ [] := by
  rintro rfl
  exact h

theorem dependsOn_without {removed : List (Nat × Nat)} :
    (g.without removed).DependsOn u v ↔ g.DependsOn u v ∧ (u, v) ∉ removed := by
  simp only [DependsOn, deps, without, Array.getElem?_mapIdx]
  cases g.dependencies[u]? <;> simp

end Graph

/-! ## Edges of cycles -/

/-- The edge from the last node of a list to its first. -/
def closingPair (nodes : List Nat) : Option (Nat × Nat) :=
  match nodes.getLast?, nodes.head? with
  | some last, some first => some (last, first)
  | _, _ => none

/-- The edge that closes a cycle, from its last node to its first. -/
def Cycle.closingEdge (cycle : Cycle) : Option (Nat × Nat) :=
  closingPair cycle.nodes

theorem closingPair_eq_some {nodes : List Nat} {e : Nat × Nat} :
    closingPair nodes = some e ↔ nodes.getLast? = some e.1 ∧ nodes.head? = some e.2 := by
  rw [closingPair]
  cases nodes.getLast? <;> cases nodes.head? <;> simp [Prod.ext_iff]

theorem exists_closingPair {nodes : List Nat} (h : nodes ≠ []) :
    ∃ e, closingPair nodes = some e :=
  ⟨(nodes.getLast h, nodes.head h), closingPair_eq_some.2
    ⟨List.getLast?_eq_some_getLast h, List.head?_eq_some_head h⟩⟩

namespace Graph

variable {g : Graph} {nodes : List Nat} {u v : Nat}

/-- The edges of a list of nodes hold the relation exactly if the list, led back to its first node,
is a chain of it. -/
theorem isChain_iff_edges (r : Nat → Nat → Prop) (first : Nat) (rest : List Nat) :
    List.IsChain r (first :: rest ++ [first]) ↔
      ∀ e ∈ (Cycle.ofNodes g (first :: rest)).edges, r e.1 e.2 := by
  rw [List.isChain_cons_append_singleton_iff_forall₂, List.forall₂_iff_zip]
  simp [Cycle.ofNodes, Cycle.edges]

theorem isCycle_iff_edges :
    g.IsCycle nodes ↔
      nodes ≠ [] ∧ ∀ e ∈ (Cycle.ofNodes g nodes).edges, g.DependsOn e.1 e.2 := by
  cases nodes with
  | nil => simp [IsCycle]
  | cons first rest => simpa [IsCycle] using isChain_iff_edges (g := g) g.DependsOn first rest

theorem mem_of_mem_edges {e : Nat × Nat} (he : e ∈ (Cycle.ofNodes g nodes).edges) :
    e.1 ∈ nodes ∧ e.2 ∈ nodes := by
  obtain ⟨hsource, htarget⟩ := List.of_mem_zip (a := e.1) (b := e.2) he
  refine ⟨hsource, ?_⟩
  rcases List.mem_append.1 htarget with hmem | hmem
  · exact List.mem_of_mem_drop hmem
  · exact List.mem_of_mem_take hmem

theorem mem_edges_of_closingPair {e : Nat × Nat} (h : closingPair nodes = some e) :
    e ∈ (Cycle.ofNodes g nodes).edges := by
  obtain ⟨hlast, hfirst⟩ := closingPair_eq_some.1 h
  cases nodes with
  | nil => cases hfirst
  | cons first rest =>
      have hchain := (isChain_iff_edges (g := g)
        (fun u v => (u, v) ∈ (Cycle.ofNodes g (first :: rest)).edges) first rest).2 fun _ he => he
      obtain rfl : first = e.2 := by simpa using hfirst
      exact (List.isChain_append.1 hchain).2.2 e.1 hlast e.2 rfl

theorem IsCycle.exists_closingPair (h : g.IsCycle nodes) :
    ∃ e, closingPair nodes = some e ∧ g.DependsOn e.1 e.2 := by
  obtain ⟨e, he⟩ := LayerLint.exists_closingPair h.ne_nil
  exact ⟨e, he, (isCycle_iff_edges.1 h).2 e (mem_edges_of_closingPair he)⟩

/-! ## Cycles and ways back -/

theorem transGen_of_isChain {r : Nat → Nat → Prop} {first last : Nat} {inner : List Nat}
    (h : List.IsChain r (first :: inner ++ [last])) : Relation.TransGen r first last := by
  induction inner generalizing first with
  | nil => exact .single (by simpa using h)
  | cons next inner ih =>
      rw [List.cons_append, List.cons_append, List.isChain_cons_cons] at h
      exact .head h.1 (ih h.2)

theorem exists_isChain_of_transGen {r : Nat → Nat → Prop} (h : Relation.TransGen r u v) :
    ∃ inner, List.IsChain r (u :: inner ++ [v]) := by
  induction h using Relation.TransGen.head_induction_on with
  | single h => exact ⟨[], by simpa using h⟩
  | @head a b hab _ ih =>
      obtain ⟨inner, hinner⟩ := ih
      exact ⟨b :: inner, List.isChain_cons_cons.2 ⟨hab, hinner⟩⟩

/-- Nodes of one closed chain get to each other along it. -/
theorem reflTransGen_of_isChain {r : Nat → Nat → Prop} {first : Nat} {rest : List Nat}
    (h : List.IsChain r (first :: rest ++ [first])) (hu : u ∈ first :: rest)
    (hv : v ∈ first :: rest) : Relation.ReflTransGen r u v := by
  -- From a node on to the end, back to the first, and from there to the other node.
  have hend : ∀ w ∈ first :: rest, Relation.ReflTransGen r w first := by
    intro w hw
    refine h.backwards_concat_induction (Relation.ReflTransGen r · first) _ ?_ .refl w hw
    intro x y hxy hy
    exact .head hxy hy
  have hstart : ∀ w ∈ first :: rest, Relation.ReflTransGen r first w := by
    intro w hw
    refine h.cons_induction (Relation.ReflTransGen r first) _ ?_ .refl w ?_
    · intro x y hxy hx
      exact .tail hx hxy
    · simpa [or_comm] using hw
  exact (hend u hu).trans (hstart v hv)

/-- Nodes of one cycle reach each other. -/
theorem IsCycle.reaches (h : g.IsCycle nodes) (hu : u ∈ nodes) (hv : v ∈ nodes) :
    g.Reaches u v := by
  cases nodes with
  | nil => cases hu
  | cons first rest => exact reflTransGen_of_isChain h hu hv

/-- An edge lies on a closed chain of a relation exactly if it is in the relation and there is a way
back. -/
theorem exists_edges_iff {r : Nat → Nat → Prop} :
    (∃ nodes, (u, v) ∈ (Cycle.ofNodes g nodes).edges ∧
      ∀ e ∈ (Cycle.ofNodes g nodes).edges, r e.1 e.2) ↔ r u v ∧ Relation.ReflTransGen r v u := by
  constructor
  · rintro ⟨nodes, hmem, hall⟩
    obtain ⟨hu, hv⟩ := mem_of_mem_edges hmem
    cases nodes with
    | nil => cases hu
    | cons first rest =>
        exact ⟨hall _ hmem, reflTransGen_of_isChain ((isChain_iff_edges r first rest).2 hall) hv hu⟩
  · rintro ⟨huv, hback⟩
    rcases Relation.reflTransGen_iff_eq_or_transGen.1 hback with rfl | hback
    · exact ⟨[u], by simp [Cycle.ofNodes, Cycle.edges], by simpa [Cycle.ofNodes, Cycle.edges]⟩
    · obtain ⟨inner, hinner⟩ := exists_isChain_of_transGen hback
      refine ⟨u :: v :: inner, by simp [Cycle.ofNodes, Cycle.edges], ?_⟩
      exact (isChain_iff_edges r u (v :: inner)).1 (List.isChain_cons_cons.2 ⟨huv, hinner⟩)

/-- Every node of a cycle gets back to itself. -/
theorem IsCycle.transGen (h : g.IsCycle nodes) (hv : v ∈ nodes) :
    Relation.TransGen g.DependsOn v v := by
  cases nodes with
  | nil => cases hv
  | cons first rest =>
      have hround : Relation.TransGen g.DependsOn first first := transGen_of_isChain h
      exact .trans_right (h.reaches hv List.mem_cons_self)
        (hround.trans_left (h.reaches List.mem_cons_self hv))

theorem exists_isCycle_of_transGen (h : Relation.TransGen g.DependsOn v v) :
    ∃ nodes, g.IsCycle nodes ∧ v ∈ nodes := by
  obtain ⟨inner, hinner⟩ := exists_isChain_of_transGen h
  exact ⟨v :: inner, hinner, List.mem_cons_self⟩

end Graph

/-- An example: two circles of imports that share a file, and a file that leads to them. -/
def knot : Project :=
  { files := ["main.go", "a.go", "b.go", "c.go"].map .ofPath
    imports :=
      [("main.go", [.ofSpecifier "a.go"]), ("a.go", [.ofSpecifier "b.go"]),
        ("b.go", [.ofSpecifier "a.go", .ofSpecifier "c.go"]), ("c.go", [.ofSpecifier "b.go"])] }

end LayerLint
