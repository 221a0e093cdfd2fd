import LayerLint.Proofs.CycleWalk.Found

/-!
# Every cycle is closed

The edges that the walk does not report as closing a cycle lead to nodes that it leaves earlier than
the node they start from. So a cycle cannot do without a reported edge.
-/

namespace LayerLint.CycleWalk

/-- The closing edges of the cycles found so far. -/
def State.closedEdges (s : State) : List (Nat × Nat) :=
  s.found.toList.filterMap closingPair

variable {g : Graph} {included : Nat → Bool} {s s' : State}
  {closed closed' : List (Nat × Nat)} {done done' left : List Nat}

/-! ## The order in which nodes are left -/

/-- The included dependencies of each node of the list, latest first, are closing edges or come
later in the list. -/
def Ordered (g : Graph) (included : Nat → Bool) (closed : List (Nat × Nat)) : List Nat → Prop
  | [] => True
  | node :: left =>
      (∀ v, g.DependsOn node v → included v = true → (node, v) ∈ closed ∨ v ∈ left) ∧
        Ordered g included closed left

/-- The included dependencies of each frame's node that were looked at are closing edges, or they
are done or will be left before the node. -/
def Settled (g : Graph) (included : Nat → Bool) (closed : List (Nat × Nat)) :
    List Nat → List Frame → Prop
  | _, [] => True
  | done, ⟨node, pending⟩ :: outer =>
      (∀ v, g.DependsOn node v → included v = true →
        v ∈ pending ∨ (node, v) ∈ closed ∨ v ∈ done) ∧
        Settled g included closed (node :: done) outer

theorem Ordered.mono (hclosed : closed ⊆ closed') (h : Ordered g included closed left) :
    Ordered g included closed' left := by
  induction left with
  | nil => trivial
  | cons node left ih =>
      refine ⟨fun v hdep hin => ?_, ih h.2⟩
      exact (h.1 v hdep hin).imp (hclosed ·) id

theorem Settled.mono {frames : List Frame} (hclosed : closed ⊆ closed') (hdone : done ⊆ done')
    (h : Settled g included closed done frames) : Settled g included closed' done' frames := by
  induction frames generalizing done done' with
  | nil => trivial
  | cons f outer ih =>
      refine ⟨fun v hdep hin => ?_, ih (List.cons_subset_cons f.node hdone) h.2⟩
      exact (h.1 v hdep hin).imp id (Or.imp (hclosed ·) (hdone ·))

/-- What is known of a walk under way, given the nodes it has left, latest first. -/
structure Explored (g : Graph) (included : Nat → Bool) (s : State) (left : List Nat) : Prop where
  ordered : Ordered g included s.closedEdges left
  settled : Settled g included s.closedEdges left s.frames
  visited_iff : ∀ v : Nat, s.visited[v]? = some true ↔ v ∈ left ∨ v ∈ s.stack
  waiting : ∀ v < g.size, included v = true → s.visited[v]? = some true ∨ v ∈ s.roots

theorem explored_initial (g : Graph) (included : Nat → Bool) :
    Explored g included (.initial g) [] := by
  refine ⟨trivial, trivial, ?_, ?_⟩
  · simp [State.initial, State.stack, Array.getElem?_replicate]
  · intro v hv _
    exact Or.inr (List.mem_range.2 hv)

/-! ## Moves -/

theorem Explored.skipRoot (ha : Aligned g included s) (h : Explored g included s left)
    {root : Nat} {roots : List Nat} (hroots : s.roots = root :: roots)
    (hskip : s.visited[root]? ≠ some false ∨ included root = false) :
    Explored g included { s with roots } left := by
  refine ⟨h.ordered, h.settled, h.visited_iff, ?_⟩
  intro v hv hin
  rcases h.waiting v hv hin with hvisited | hmem
  · exact Or.inl hvisited
  · rw [hroots] at hmem
    rcases List.mem_cons.1 hmem with rfl | hmem
    · rcases hskip with hskip | hskip
      · exact Or.inl ((Marks.eq_true_iff (ha.size_visited ▸ hv)).2 hskip)
      · rw [hin] at hskip
        cases hskip
    · exact Or.inr hmem

theorem Explored.enter (hordered : Ordered g included s.closedEdges left) {node : Nat}
    (hsettled : Settled g included s.closedEdges (node :: left) s.frames)
    (hvisited : ∀ v : Nat, s.visited[v]? = some true ↔ v ∈ left ∨ v ∈ s.stack)
    (hwaiting : ∀ v < g.size, included v = true →
      s.visited[v]? = some true ∨ v ∈ s.roots ∨ v = node)
    (hnew : s.visited[node]? = some false) :
    Explored g included (s.enter g node) left := by
  refine ⟨hordered, ⟨fun v hdep _ => Or.inl hdep, hsettled⟩, ?_, ?_⟩
  · intro v
    rw [visited_enter_iff hnew, hvisited, stack_enter, List.mem_cons]
    exact or_left_comm
  · intro v hv hin
    rw [visited_enter_iff hnew]
    rcases hwaiting v hv hin with hseen | hroot | hnode
    · exact Or.inl (Or.inr hseen)
    · exact Or.inr hroot
    · exact Or.inl (Or.inl hnode)

theorem Explored.leave (h : Explored g included s left) {node : Nat} {outer : List Frame}
    (hframes : s.frames = ⟨node, []⟩ :: outer) :
    Explored g included (s.leave node outer) (node :: left) := by
  have hsettled := h.settled
  rw [hframes] at hsettled
  refine ⟨⟨?_, h.ordered⟩, hsettled.2, ?_, h.waiting⟩
  · intro v hdep hin
    exact (hsettled.1 v hdep hin).resolve_left List.not_mem_nil
  · intro v
    rw [show (s.leave node outer).visited = s.visited from rfl, h.visited_iff v,
      stack_leave hframes, List.mem_cons, List.mem_cons]
    tauto

/-- One dependency of the innermost node is dealt with. -/
theorem Settled.advance {node target : Nat} {pending : List Nat} {outer : List Frame}
    (h : Settled g included closed done (⟨node, target :: pending⟩ :: outer))
    (hclosed : closed ⊆ closed') (hdone : done ⊆ done')
    (htarget : included target = true → (node, target) ∈ closed' ∨ target ∈ done') :
    Settled g included closed' done' (⟨node, pending⟩ :: outer) := by
  refine ⟨fun v hdep hin => ?_, h.2.mono hclosed (List.cons_subset_cons node hdone)⟩
  rcases h.1 v hdep hin with hmem | hmem | hmem
  · rcases List.mem_cons.1 hmem with rfl | hmem
    · exact Or.inr (htarget hin)
    · exact Or.inl hmem
  · exact Or.inr (Or.inl (hclosed hmem))
  · exact Or.inr (Or.inr (hdone hmem))

theorem Explored.pass (hwf : g.WellFormed) (ha : Aligned g included s)
    (h : Explored g included s left) {node target : Nat} {pending : List Nat} {outer : List Frame}
    (hframes : s.frames = ⟨node, target :: pending⟩ :: outer)
    (hpass : included target = false ∨
      s.onPath[target]? ≠ some true ∧ s.visited[target]? ≠ some false) :
    Explored g included { s with frames := ⟨node, pending⟩ :: outer } left := by
  have hsettled := h.settled
  rw [hframes] at hsettled
  refine ⟨h.ordered, Settled.advance hsettled (List.Subset.refl _) (List.Subset.refl _) ?_, ?_,
    h.waiting⟩
  · intro hin
    rcases hpass with hout | ⟨hon, hvisited⟩
    · rw [hin] at hout
      cases hout
    · -- The target was entered and is no longer on the path, so it was left.
      have hlt : target < g.size := hwf.deps_lt (ha.dependsOn_pending hframes)
      have htrue := (Marks.eq_true_iff (ha.size_visited ▸ hlt)).2 hvisited
      refine Or.inr (((h.visited_iff target).1 htrue).resolve_right ?_)
      exact fun hmem => hon ((ha.onPath_iff target).2 hmem)
  · rw [stack_advance hframes]
    exact h.visited_iff

/-- The cycle found at an edge back to the path is closed by that edge. -/
theorem Aligned.closingPair_circle (ha : Aligned g included s) {node target : Nat}
    {pending : List Nat} {outer : List Frame} (hframes : s.frames = ⟨node, pending⟩ :: outer)
    (hmem : target ∈ s.stack) : closingPair (s.circle target) = some (node, target) :=
  closingPair_eq_some.2 ⟨ha.getLast?_circle hframes hmem, ha.head?_circle hmem⟩

theorem Aligned.closedEdges_close (ha : Aligned g included s) {node target : Nat}
    {pending : List Nat} {outer : List Frame}
    (hframes : s.frames = ⟨node, target :: pending⟩ :: outer) (hmem : target ∈ s.stack) :
    ({ s with frames := ⟨node, pending⟩ :: outer }.close target).closedEdges =
      s.closedEdges ++ [(node, target)] := by
  have hpair := ha.closingPair_circle hframes hmem
  rw [State.circle] at hpair
  simp [State.closedEdges, State.close, hpair]

theorem Explored.close (ha : Aligned g included s) (h : Explored g included s left)
    {node target : Nat} {pending : List Nat} {outer : List Frame}
    (hframes : s.frames = ⟨node, target :: pending⟩ :: outer)
    (hon : s.onPath[target]? = some true) :
    Explored g included ({ s with frames := ⟨node, pending⟩ :: outer }.close target) left := by
  have hsettled := h.settled
  rw [hframes] at hsettled
  have hclosed := ha.closedEdges_close hframes ((ha.onPath_iff target).1 hon)
  have hmore : s.closedEdges ⊆ s.closedEdges ++ [(node, target)] := List.subset_append_left _ _
  refine ⟨?_, ?_, ?_, h.waiting⟩
  · rw [hclosed]
    exact h.ordered.mono hmore
  · rw [hclosed]
    exact Settled.advance hsettled hmore (List.Subset.refl _) fun _ => Or.inl (by simp)
  · show ∀ v : Nat, s.visited[v]? = some true ↔
      v ∈ left ∨ v ∈ State.stack { s with frames := ⟨node, pending⟩ :: outer }
    rw [stack_advance hframes]
    exact h.visited_iff

theorem Explored.move (hwf : g.WellFormed) (ha : Aligned g included s)
    (h : Explored g included s left) (hmove : Move g included s s') :
    ∃ left', Explored g included s' left' := by
  cases hmove with
  | skipRoot _ hroots hskip => exact ⟨left, h.skipRoot ha hroots hskip⟩
  | @enterRoot root roots hframes hroots hnew _ =>
      refine ⟨left, Explored.enter (s := { s with roots }) h.ordered ?_ h.visited_iff ?_ hnew⟩
      · simp only [hframes]
        trivial
      · intro v hv hin
        have hwait := h.waiting v hv hin
        rw [hroots, List.mem_cons] at hwait
        exact hwait.imp id Or.symm
  | @leave node outer hframes => exact ⟨node :: left, h.leave hframes⟩
  | pass hframes hpass => exact ⟨left, h.pass hwf ha hframes hpass⟩
  | close hframes _ hon => exact ⟨left, h.close ha hframes hon⟩
  | @enter node target pending outer hframes _ hnew =>
      have hsettled := h.settled
      rw [hframes] at hsettled
      refine ⟨left, Explored.enter (s := { s with frames := ⟨node, pending⟩ :: outer }) h.ordered
        ?_ ?_ ?_ hnew⟩
      · exact Settled.advance hsettled (List.Subset.refl _) (List.subset_cons_self target left)
          fun _ => Or.inr List.mem_cons_self
      · rw [stack_advance hframes]
        exact h.visited_iff
      · intro v hv hin
        exact (h.waiting v hv hin).imp id Or.inl

theorem final_explored (hwf : g.WellFormed) (included : Nat → Bool) :
    ∃ left, Explored g included (final g included false) left := by
  refine (run_induct (P := fun s => Aligned g included s ∧ ∃ left, Explored g included s left)
    false ?_ _ ⟨aligned_initial g included, [], explored_initial g included⟩).2
  rintro s s' ⟨ha, left, h⟩ hmove
  exact ⟨ha.move hmove, h.move hwf ha hmove⟩

theorem final_visited (hwf : g.WellFormed) {v : Nat} (hv : v < g.size) (hin : included v = true) :
    (final g included false).visited[v]? = some true := by
  obtain ⟨left, h⟩ := final_explored hwf included
  refine (h.waiting v hv hin).resolve_right ?_
  rw [(final_done hwf included).1]
  exact List.not_mem_nil

/-- At the end of the full walk all included nodes have been left. -/
theorem final_ordered (hwf : g.WellFormed) (included : Nat → Bool) :
    ∃ left, Ordered g included (final g included false).closedEdges left ∧
      ∀ v < g.size, included v = true → v ∈ left := by
  obtain ⟨left, h⟩ := final_explored hwf included
  have hstack : (final g included false).stack = [] := by
    simp [State.stack, (final_done hwf included).2]
  refine ⟨left, h.ordered, fun v hv hin => ?_⟩
  refine ((h.visited_iff v).1 (final_visited hwf hv hin)).resolve_right ?_
  rw [hstack]
  exact List.not_mem_nil

/-! ## No cycle without a closing edge -/

/-- An edge between included nodes that is not reported. -/
def Open (g : Graph) (included : Nat → Bool) (closed : List (Nat × Nat)) (u v : Nat) : Prop :=
  g.DependsOn u v ∧ included v = true ∧ (u, v) ∉ closed

/-- Open edges lead on from the nodes of the order for a finite time only. -/
theorem Ordered.acc (h : Ordered g included closed left) {u : Nat} (hu : u ∈ left) :
    Acc (fun v u => Open g included closed u v) u := by
  induction left generalizing u with
  | nil => cases hu
  | cons node left ih =>
      rcases List.mem_cons.1 hu with rfl | hu
      · refine Acc.intro u fun v hopen => ?_
        exact ih h.2 ((h.1 v hopen.1 hopen.2.1).resolve_left hopen.2.2)
      · exact ih h.2 hu

theorem not_transGen_of_acc {u : Nat} (h : Acc (fun v u => Open g included closed u v) u) :
    ¬Relation.TransGen (Open g included closed) u u := by
  induction h with
  | intro u _ ih =>
      intro hround
      obtain ⟨v, hopen, hback⟩ := Relation.TransGen.head'_iff.1 hround
      exact ih v hopen (Relation.TransGen.tail' hback hopen)

/-- A cycle of included nodes goes along an edge that closes a reported cycle. -/
theorem exists_closing_edge (hwf : g.WellFormed) {nodes : List Nat} (hcycle : g.IsCycle nodes)
    (hin : ∀ v ∈ nodes, included v = true) :
    ∃ c ∈ walk g included false, ∃ e, c.closingEdge = some e ∧
      e ∈ (Cycle.ofNodes g nodes).edges := by
  obtain ⟨left, hordered, hleft⟩ := final_ordered hwf included
  suffices hclosed : ∃ e ∈ (final g included false).closedEdges,
      e ∈ (Cycle.ofNodes g nodes).edges by
    obtain ⟨e, he, hmem⟩ := hclosed
    obtain ⟨circle, hcircle, hpair⟩ := List.mem_filterMap.1 he
    refine ⟨Cycle.ofNodes g circle, ?_, e, hpair, hmem⟩
    rw [walk_eq]
    exact List.mem_map_of_mem hcircle
  by_contra hnone
  cases nodes with
  | nil => exact hcycle
  | cons first rest =>
      have hopen : ∀ e ∈ (Cycle.ofNodes g (first :: rest)).edges,
          Open g included (final g included false).closedEdges e.1 e.2 := by
        intro e he
        exact ⟨(Graph.isCycle_iff_edges.1 hcycle).2 e he, hin e.2 (Graph.mem_of_mem_edges he).2,
          fun hclosed => hnone ⟨e, hclosed, he⟩⟩
      have hround := Graph.transGen_of_isChain ((Graph.isChain_iff_edges _ first rest).2 hopen)
      have hlt : first < g.size := by
        obtain ⟨v, hdep, _⟩ := Relation.TransGen.head'_iff.1 (hcycle.transGen List.mem_cons_self)
        exact hwf.source_lt hdep
      have hmem := hleft first hlt (hin first List.mem_cons_self)
      exact not_transGen_of_acc (hordered.acc hmem) hround

theorem walk_ne_nil_iff (hwf : g.WellFormed) (included : Nat → Bool) :
    walk g included false ≠ [] ↔ ∃ nodes, g.IsCycle nodes ∧ ∀ v ∈ nodes, included v = true := by
  constructor
  · intro hne
    obtain ⟨c, hc⟩ := List.exists_mem_of_ne_nil _ hne
    have hgenuine := (genuine_walk hc).1
    exact ⟨c.nodes, hgenuine.isCycle, hgenuine.included_of_mem⟩
  · rintro ⟨nodes, hcycle, hin⟩
    obtain ⟨c, hc, _⟩ := exists_closing_edge hwf hcycle hin
    exact List.ne_nil_of_mem hc

end LayerLint.CycleWalk
