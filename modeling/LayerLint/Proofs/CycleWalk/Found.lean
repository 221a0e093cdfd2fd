import LayerLint.Proofs.CycleWalk.Ending

/-!
# What the walk finds

Every list of nodes that the walk reports is a cycle of included nodes, none of them twice. It is
the end of the path that starts where the closing edge leads, so that edge goes from its last node
to its first.
-/

namespace LayerLint.CycleWalk

variable {g : Graph} {included : Nat → Bool} {s s' : State}

/-! ## The end of the path -/

/-- The nodes that an edge to a node of the path closes to a cycle. -/
def State.circle (s : State) (target : Nat) : List Nat :=
  s.path.toList.drop (s.position[target]?.getD 0)

theorem Aligned.head?_circle (h : Aligned g included s) {target : Nat} (hmem : target ∈ s.stack) :
    (s.circle target).head? = some target := by
  rw [← List.mem_reverse, ← h.path_eq] at hmem
  obtain ⟨i, hi⟩ := List.getElem?_of_mem hmem
  rw [Array.getElem?_toList] at hi
  rw [State.circle, h.position_eq i target hi, Option.getD_some, List.head?_drop,
    Array.getElem?_toList, hi]

theorem Aligned.getLast?_circle (h : Aligned g included s) {node target : Nat}
    {pending : List Nat} {outer : List Frame} (hframes : s.frames = ⟨node, pending⟩ :: outer)
    (hmem : target ∈ s.stack) : (s.circle target).getLast? = some node := by
  have hpath : s.path.toList.getLast? = some node := by
    rw [h.path_eq, List.getLast?_reverse]
    simp [State.stack, hframes]
  have hhead := h.head?_circle hmem
  rw [State.circle] at hhead ⊢
  have hlt : ¬s.path.toList.length ≤ s.position[target]?.getD 0 := by
    intro hle
    rw [List.drop_eq_nil_of_le hle] at hhead
    cases hhead
  rw [List.getLast?_drop, if_neg hlt, hpath]

theorem circle_suffix (s : State) (target : Nat) : s.circle target <:+ s.path.toList :=
  List.drop_suffix _ _

theorem Aligned.circle_nodup (h : Aligned g included s) (target : Nat) :
    (s.circle target).Nodup := by
  have hpath : s.path.toList.Nodup := by
    rw [h.path_eq]
    exact List.nodup_reverse.2 h.stack_nodup
  exact hpath.sublist (circle_suffix s target).sublist

theorem Aligned.circle_included (h : Aligned g included s) {target v : Nat}
    (hv : v ∈ s.circle target) : included v = true := by
  have hstack : v ∈ s.stack := by
    rw [← List.mem_reverse, ← h.path_eq]
    exact (circle_suffix s target).mem hv
  exact h.included_of_visited v (h.visited_of_mem v hstack)

theorem Aligned.circle_isCycle (h : Aligned g included s) {node target : Nat}
    {pending : List Nat} {outer : List Frame} (hframes : s.frames = ⟨node, pending⟩ :: outer)
    (hdep : g.DependsOn node target) (hmem : target ∈ s.stack) :
    g.IsCycle (s.circle target) := by
  have hchain : (s.circle target).IsChain g.DependsOn := by
    refine List.IsChain.suffix ?_ (circle_suffix s target)
    rw [h.path_eq, List.isChain_reverse]
    exact h.stack_chain
  have hhead := h.head?_circle hmem
  have hlast := h.getLast?_circle hframes hmem
  cases hcircle : s.circle target with
  | nil => simp [hcircle] at hhead
  | cons first rest =>
      rw [hcircle] at hchain hhead hlast
      obtain rfl : first = target := by simpa using hhead
      refine hchain.append (List.isChain_singleton first) ?_
      intro last hlast' first' hfirst'
      rw [hlast, Option.mem_some_iff] at hlast'
      obtain rfl : first = first' := by simpa using hfirst'
      exact hlast' ▸ hdep

/-! ## All cycles found -/

/-- A list of included nodes, none of them twice, each of which depends on the next and the last on
the first. -/
structure Genuine (g : Graph) (included : Nat → Bool) (nodes : List Nat) : Prop where
  isCycle : g.IsCycle nodes
  nodup : nodes.Nodup
  included_of_mem : ∀ v ∈ nodes, included v = true

theorem genuine_move (h : Aligned g included s)
    (hfound : ∀ nodes ∈ s.found, Genuine g included nodes)
    (hmove : Move g included s s') : ∀ nodes ∈ s'.found, Genuine g included nodes := by
  cases hmove with
  | @close node target pending outer hframes hin hon =>
      intro nodes hnodes
      rcases Array.mem_push.1 hnodes with hnodes | rfl
      · exact hfound nodes hnodes
      · have hmem := (h.onPath_iff target).1 hon
        exact ⟨h.circle_isCycle hframes (h.dependsOn_pending hframes) hmem, h.circle_nodup target,
          fun v => h.circle_included⟩
  | _ => exact hfound

theorem genuine_final (g : Graph) (included : Nat → Bool) (onlyFirst : Bool) {nodes : List Nat}
    (hnodes : nodes ∈ (final g included onlyFirst).found) : Genuine g included nodes := by
  have hrun : Aligned g included (final g included onlyFirst) ∧
      ∀ nodes ∈ (final g included onlyFirst).found, Genuine g included nodes := by
    refine run_induct
      (P := fun s => Aligned g included s ∧ ∀ nodes ∈ s.found, Genuine g included nodes) onlyFirst
      ?_ (stepBound g) ⟨aligned_initial g included, by simp [State.initial]⟩
    intro s s' hs hmove
    exact ⟨hs.1.move hmove, genuine_move hs.1 hs.2 hmove⟩
  exact hrun.2 nodes hnodes

theorem genuine_walk {onlyFirst : Bool} {c : Cycle} (hc : c ∈ walk g included onlyFirst) :
    Genuine g included c.nodes ∧ c.files = c.nodes.map g.path := by
  rw [walk_eq] at hc
  obtain ⟨nodes, hnodes, rfl⟩ := List.mem_map.1 hc
  exact ⟨genuine_final g included onlyFirst (Array.mem_toList_iff.1 hnodes), rfl⟩

end LayerLint.CycleWalk
