import LayerLint.Proofs.CycleWalk.Passed
import LayerLint.Proofs.Graph.Rotation

/-!
# No cycle is found twice

The edge that closes a cycle is looked at once, after the edges along the path. So it is on no cycle
found before, and since rotated lists of nodes have the same edges, no cycle is found again from
another start.
-/

namespace LayerLint

theorem Cycle.mem_edges_of_closingEdge {c : Cycle} {e : Nat × Nat} (h : c.closingEdge = some e) :
    e ∈ c.edges :=
  Graph.mem_edges_of_closingPair (g := {}) h

namespace CycleWalk

/-- The second cycle is closed by an edge that is not on the first. -/
def ClosedApart (c c' : Cycle) : Prop :=
  ∀ e, c'.closingEdge = some e → e ∉ c.edges

/-- The cycles found so far are closed by edges that are on none found before. -/
def State.Apart (g : Graph) (s : State) : Prop :=
  s.found.toList.Pairwise fun nodes nodes' => ClosedApart (.ofNodes g nodes) (.ofNodes g nodes')

variable {g : Graph} {included : Nat → Bool} {s s' : State} {c c' : Cycle} {e : Nat × Nat}

/-! ## One closing edge after the other -/

theorem State.Apart.move (ha : Aligned g included s) (hlooked : Looked g s) (h : s.Apart g)
    (hmove : Move g included s s') : s'.Apart g := by
  cases hmove with
  | @close node target pending outer hframes _ hon =>
      rw [State.Apart, State.close, Array.toList_push]
      refine List.pairwise_append.2 ⟨h, List.pairwise_singleton _ _, ?_⟩
      intro nodes hnodes nodes' hnodes' e hclosing hmem
      rw [List.mem_singleton.1 hnodes'] at hclosing
      have hpair := ha.closingPair_circle hframes ((ha.onPath_iff target).1 hon)
      obtain rfl : (node, target) = e := Option.some.inj (hpair.symm.trans hclosing)
      -- The closing edge was still to be looked at, unlike the edges of the cycles found before.
      refine (hlooked.circled node target (List.mem_flatMap.2 ⟨nodes, hnodes, hmem⟩)).2 ?_
      exact ⟨_, hframes ▸ List.mem_cons_self, rfl, List.mem_cons_self⟩
  | _ => exact h

theorem pairwise_closedApart (hwf : g.WellFormed) (included : Nat → Bool) :
    (walk g included false).Pairwise ClosedApart := by
  rw [walk_eq, List.pairwise_map]
  refine (run_induct (P := fun s => (Aligned g included s ∧ Looked g s) ∧ s.Apart g) false ?_ _
    ⟨⟨aligned_initial g included, looked_initial g⟩, List.Pairwise.nil⟩).2
  rintro s s' ⟨⟨ha, hlooked⟩, h⟩ hmove
  exact ⟨⟨ha.move hmove, hlooked.move hwf ha hmove⟩, h.move ha hlooked hmove⟩

/-! ## No repeats -/

/-- Cycles of which no two are closed by the same edge or are rotations of each other. -/
structure Distinct (cycles : List Cycle) : Prop where
  closed : ∀ c ∈ cycles, ∃ e, c.closingEdge = some e
  closingEdges_nodup : (cycles.map Cycle.closingEdge).Nodup
  not_rotation : ∀ (i j : Nat) (c c' : Cycle), cycles[i]? = some c → cycles[j]? = some c' →
    i ≠ j → c.isRotationOf c' = false

theorem ClosedApart.closingEdge_ne (h : ClosedApart c c') (he : c'.closingEdge = some e) :
    c.closingEdge ≠ c'.closingEdge :=
  fun heq => h e he (Cycle.mem_edges_of_closingEdge (heq.trans he))

theorem ClosedApart.not_isRotated (h : ClosedApart c c') (he : c'.closingEdge = some e) :
    ¬c.nodes.IsRotated c'.nodes := by
  intro hrotated
  have hmem := Cycle.mem_edges_of_closingEdge he
  exact h e he ((Cycle.edges_isRotated hrotated).mem_iff.2 hmem)

theorem distinct_walk (hwf : g.WellFormed) (included : Nat → Bool) :
    Distinct (walk g included false) := by
  have hclosed : ∀ c ∈ walk g included false, ∃ e, c.closingEdge = some e := fun c hc =>
    exists_closingPair (genuine_walk hc).1.isCycle.ne_nil
  have hapart := pairwise_closedApart hwf included
  have hrotated : (walk g included false).Pairwise fun c c' => ¬c.nodes.IsRotated c'.nodes := by
    refine hapart.imp_of_mem fun _ hc' h => ?_
    obtain ⟨e, he⟩ := hclosed _ hc'
    exact h.not_isRotated he
  refine ⟨hclosed, ?_, ?_⟩
  · rw [List.Nodup, List.pairwise_map]
    refine hapart.imp_of_mem fun _ hc' h => ?_
    obtain ⟨e, he⟩ := hclosed _ hc'
    exact h.closingEdge_ne he
  · intro i j c c' hi hj hne
    by_contra hrotation
    rw [Bool.not_eq_false] at hrotation
    have h := Cycle.isRotated_of_isRotationOf hrotation
    obtain ⟨hilt, rfl⟩ := List.getElem?_eq_some_iff.1 hi
    obtain ⟨hjlt, rfl⟩ := List.getElem?_eq_some_iff.1 hj
    rcases Nat.lt_or_gt_of_ne hne with hlt | hlt
    · exact List.pairwise_iff_getElem.1 hrotated i j hilt hjlt hlt h.symm
    · exact List.pairwise_iff_getElem.1 hrotated j i hjlt hilt hlt h

end CycleWalk

namespace Graph

/-- No cycle is reported twice, neither among all cycles nor among those of a layer. -/
theorem cycles_reported_once (project : Project) :
    CycleWalk.Distinct (build project).cycles ∧
      ∀ (map : LayerMap) (name : String),
        CycleWalk.Distinct ((build project).cyclesInLayer map name) := by
  have hwf := build_wellFormed project
  exact ⟨CycleWalk.distinct_walk hwf _, fun map name => CycleWalk.distinct_walk hwf _⟩

/-- The files of `knot` that import each other, as a layer. -/
def knotLayers : LayerMap :=
  { layers := [{ name := "core", pattern := "?.go" }]
    positions := #[none, some 0, some 0, some 0] }

theorem cycles_reported_once_knot :
    (build knot).cycles.map Cycle.closingEdge = [some (2, 1), some (3, 2)] ∧
    ((build knot).cycles.map Cycle.closingEdge).Nodup ∧
    ∃ c c', ((build knot).cyclesInLayer knotLayers "core")[0]? = some c ∧
      ((build knot).cyclesInLayer knotLayers "core")[1]? = some c' ∧
      c.isRotationOf c' = false := by
  obtain ⟨⟨_, hnodup, _⟩, hlayer⟩ := cycles_reported_once knot
  have hfirst : ((build knot).cyclesInLayer knotLayers "core")[0]? =
      some ⟨[1, 2], ["a.go", "b.go"]⟩ := by decide +kernel
  have hsecond : ((build knot).cyclesInLayer knotLayers "core")[1]? =
      some ⟨[2, 3], ["b.go", "c.go"]⟩ := by decide +kernel
  exact ⟨by decide +kernel, hnodup, _, _, hfirst, hsecond,
    (hlayer knotLayers "core").not_rotation 0 1 _ _ hfirst hsecond (by decide)⟩

end Graph

end LayerLint
