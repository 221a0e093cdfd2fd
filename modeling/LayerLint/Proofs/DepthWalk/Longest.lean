import Mathlib.Order.Bounds.Defs
import LayerLint.Proofs.DepthWalk.Answer
import LayerLint.Proofs.Graph.Component

/-!
# Depths and chains of imports

A known depth is the length of a chain of imports. Where no cycle can be reached it is the length of
the longest.
-/

namespace LayerLint

namespace Graph

/-- There is a chain of so many dependencies from a node. -/
def HasChain (g : Graph) (node length : Nat) : Prop :=
  ∃ last, Steps g.deps length node last

/-- The longest chains of dependencies from a node have this length. -/
def IsLongest (g : Graph) (node length : Nat) : Prop :=
  IsGreatest {k | g.HasChain node k} length

/-- No cycle can be reached from a node. -/
def CycleFree (g : Graph) (node : Nat) : Prop :=
  ∀ nodes, g.IsCycle nodes → ∀ u ∈ nodes, ¬g.Reaches node u

variable {g : Graph} {u v k : Nat}

theorem HasChain.head (huv : v ∈ g.deps u) (h : g.HasChain v k) : g.HasChain u (k + 1) := by
  obtain ⟨last, hsteps⟩ := h
  exact ⟨last, .head huv hsteps⟩

theorem CycleFree.step (h : g.CycleFree u) (huv : v ∈ g.deps u) : g.CycleFree v :=
  fun nodes hcycle x hx hvx => h nodes hcycle x hx (.head huv hvx)

theorem CycleFree.no_way_back (h : g.CycleFree u) (huv : v ∈ g.deps u) : ¬g.Reaches v u := by
  intro hback
  obtain ⟨nodes, hcycle, hu⟩ := exists_isCycle_of_transGen (.head' huv hback)
  exact h nodes hcycle u hu .refl

theorem Acyclic.cycleFree (h : g.Acyclic) (u : Nat) : g.CycleFree u :=
  fun nodes hcycle => absurd hcycle (h nodes)

theorem WellFormed.reachable_iff (h : g.WellFormed) (hu : u < g.size) :
    (reachable g.size g.deps u)[v]? = some true ↔ g.Reaches u v :=
  Graph.reachable_iff (fun _ _ hv => h.deps_lt hv) hu v

/-- Whether a cycle can be reached is found by the search and the flags. -/
theorem WellFormed.cycleFree_iff (h : g.WellFormed) (hu : u < g.size) :
    g.CycleFree u ↔ ∀ v < g.size, (reachable g.size g.deps u)[v]? = some true →
      g.cyclicNodes[v]? ≠ some true := by
  constructor
  · intro hfree v _ hv hcyclic
    obtain ⟨nodes, hcycle, hmem⟩ := exists_isCycle_of_transGen (h.flag_iff.1 hcyclic)
    exact hfree nodes hcycle v hmem ((h.reachable_iff hu).1 hv)
  · intro hnone nodes hcycle v hv huv
    exact hnone v (h.reaches_lt hu huv) ((h.reachable_iff hu).2 huv)
      (h.flag_iff.2 (hcycle.transGen hv))

theorem IsLongest.lt_iff {length limit : Nat} (h : g.IsLongest u length) :
    limit < length ↔ ∃ k, limit + 1 ≤ k ∧ g.HasChain u k := by
  constructor
  · exact fun hlt => ⟨length, hlt, h.1⟩
  · rintro ⟨k, hk, hchain⟩
    exact Nat.lt_of_lt_of_le hk (h.2 hchain)

end Graph

namespace DepthTable

variable {g : Graph} {table : DepthTable} {v d : Nat}

theorem Settled.hasChain (h : Settled g table) (hv : table.depth? v = some d) : g.HasChain v d := by
  -- By induction on the depth: a dependency one less deep starts the rest of the chain.
  induction d generalizing v with
  | zero => exact ⟨v, .refl v⟩
  | succ d ih =>
      have hfits := h.fits v (d + 1) hv
      rcases hfits.reached d rfl with rfl | ⟨x, hx, hknown⟩
      · obtain ⟨x, hx⟩ := hfits.exists_dependency
        exact .head hx ⟨x, .refl x⟩
      · exact .head hx (ih hknown)

theorem Settled.le_of_steps (h : Settled g table) {k last : Nat}
    (hsteps : Graph.Steps g.deps k v last) (hfree : g.CycleFree v)
    (hv : table.depth? v = some d) : k ≤ d := by
  induction hsteps generalizing d with
  | refl => exact Nat.zero_le d
  | @head k v x last hx _ ih =>
      obtain ⟨e, he, hlt⟩ := (h.fits v d hv).above x hx (hfree.no_way_back hx)
      exact Nat.lt_of_le_of_lt (ih (hfree.step hx) he) hlt

theorem Settled.isLongest (h : Settled g table) (hfree : g.CycleFree v)
    (hv : table.depth? v = some d) : g.IsLongest v d :=
  ⟨h.hasChain hv, fun _ ⟨_, hsteps⟩ => h.le_of_steps hsteps hfree hv⟩

end DepthTable

end LayerLint
