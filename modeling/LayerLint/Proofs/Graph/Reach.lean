import Mathlib.Logic.Relation
import Mathlib.Tactic.Tauto
import LayerLint.Graph.Reach
import LayerLint.Proofs.Marks

/-!
# What the search in rounds marks

After a number of rounds exactly the nodes within that many steps are marked. As many rounds as
there are nodes mark every node that can be reached, since a way can leave out its loops.
-/

namespace LayerLint.Graph

/-- There is a way of so many steps from one node to another. -/
inductive Steps (next : Nat → List Nat) : Nat → Nat → Nat → Prop
  | refl (u : Nat) : Steps next 0 u u
  | head {k u v w : Nat} (step : v ∈ next u) (rest : Steps next k v w) : Steps next (k + 1) u w

variable {next : Nat → List Nat} {size k u v w : Nat}

theorem Steps.reflTransGen (h : Steps next k u v) :
    Relation.ReflTransGen (fun u v => v ∈ next u) u v := by
  induction h with
  | refl => exact .refl
  | head step _ ih => exact .head step ih

theorem Steps.concat (h : Steps next k u v) (step : w ∈ next v) : Steps next (k + 1) u w := by
  induction h with
  | refl => exact .head step (.refl w)
  | head first _ ih => exact .head first (ih step)

theorem exists_steps (h : Relation.ReflTransGen (fun u v => v ∈ next u) u v) :
    ∃ k, Steps next k u v := by
  induction h using Relation.ReflTransGen.head_induction_on with
  | refl => exact ⟨0, .refl v⟩
  | head step _ ih =>
      obtain ⟨k, hk⟩ := ih
      exact ⟨k + 1, .head step hk⟩

/-! ## Ways without loops -/

/-- The way after the last time it comes to a node does not come to the node again. -/
theorem Steps.after_last (h : Steps next k u v) (w : Nat) :
    (∃ j, Steps (fun x => (next x).filter (· ≠ w)) j u v) ∨
      ∃ j, Steps (fun x => (next x).filter (· ≠ w)) j w v := by
  induction h with
  | refl u => exact Or.inl ⟨0, .refl u⟩
  | @head k u y v step _ ih =>
      rcases ih with ⟨j, hj⟩ | hlast
      · by_cases hy : y = w
        · exact Or.inr ⟨j, hy ▸ hj⟩
        · exact Or.inl ⟨j + 1, .head (by simpa using ⟨step, hy⟩) hj⟩
      · exact Or.inr hlast

theorem Steps.of_filter {p : Nat → Bool} (h : Steps (fun x => (next x).filter p) k u v) :
    Steps next k u v := by
  induction h with
  | refl u => exact .refl u
  | head step _ ih => exact .head (List.mem_filter.1 step).1 ih

/-- A way need not have more steps than there are nodes to come to. -/
theorem Steps.exists_le {places : List Nat} (hplaces : ∀ x, ∀ y ∈ next x, y ∈ places)
    (h : Steps next k u v) : ∃ j ≤ places.length, Steps next j u v := by
  -- By induction on the number of places: what follows the last time at the first place on the way
  -- has one place less to come to.
  induction hn : places.length generalizing next places k u with
  | zero =>
      cases h with
      | refl => exact ⟨0, Nat.le_refl 0, .refl v⟩
      | head step _ =>
          rw [List.length_eq_zero_iff.1 hn] at hplaces
          exact absurd (hplaces _ _ step) List.not_mem_nil
  | succ n ih =>
      cases h with
      | refl => exact ⟨0, Nat.zero_le _, .refl v⟩
      | @head k _ w _ step rest =>
          obtain ⟨j, hj⟩ : ∃ j, Steps (fun x => (next x).filter (· ≠ w)) j w v :=
            (rest.after_last w).elim id id
          have hfewer : ∀ x, ∀ y ∈ (next x).filter (· ≠ w), y ∈ places.erase w := by
            intro x y hy
            obtain ⟨hy, hyw⟩ := List.mem_filter.1 hy
            exact (List.mem_erase_of_ne (by simpa using hyw)).2 (hplaces x y hy)
          have hlength : (places.erase w).length = n := by
            rw [List.length_erase_of_mem (hplaces _ _ step), hn]
            rfl
          obtain ⟨i, hi, hsteps⟩ := ih hfewer hj hlength
          exact ⟨i + 1, Nat.succ_le_succ hi, .head step hsteps.of_filter⟩

/-! ## One round -/

theorem markFresh_unmarked {marked : Array Bool} {fresh : List Nat} (h : marked[u]? = some false) :
    markFresh (marked, fresh) u = (marked.setIfInBounds u true, u :: fresh) := by
  simp [markFresh, h]

theorem markFresh_same {marked : Array Bool} {fresh : List Nat} (h : marked[u]? ≠ some false) :
    markFresh (marked, fresh) u = (marked, fresh) := by
  rw [markFresh]
  cases hu : marked[u]? with
  | none => simp
  | some mark => cases mark <;> simp_all

theorem markFresh_foldl (nodes : List Nat) (marked : Array Bool) (fresh : List Nat) :
    (nodes.foldl markFresh (marked, fresh)).1.size = marked.size ∧
      (∀ v, (nodes.foldl markFresh (marked, fresh)).1[v]? = some true ↔
        marked[v]? = some true ∨ v ∈ nodes ∧ v < marked.size) ∧
      ∀ v, v ∈ (nodes.foldl markFresh (marked, fresh)).2 ↔
        v ∈ fresh ∨ v ∈ nodes ∧ marked[v]? = some false := by
  induction nodes generalizing marked fresh with
  | nil => simp
  | cons node nodes ih =>
      rw [List.foldl_cons]
      by_cases hnode : marked[node]? = some false
      · have hlt : node < marked.size := (Array.getElem?_eq_some_iff.1 hnode).1
        obtain ⟨hsize, hmarked, hfresh⟩ := ih (marked.setIfInBounds node true) (node :: fresh)
        rw [markFresh_unmarked hnode]
        refine ⟨by simpa using hsize, fun v => ?_, fun v => ?_⟩
        · rw [hmarked, Array.size_setIfInBounds, Marks.getElem?_set _ hlt]
          by_cases hv : v = node
          · simp [hv, hlt]
          · simp [hv]
        · rw [hfresh, Marks.getElem?_set _ hlt]
          by_cases hv : v = node
          · simp [hv, hnode]
          · simp [hv]
      · have htrue : node < marked.size → marked[node]? = some true := fun hlt =>
          (Marks.eq_true_iff hlt).2 hnode
        obtain ⟨hsize, hmarked, hfresh⟩ := ih marked fresh
        rw [markFresh_same hnode]
        refine ⟨hsize, fun v => ?_, fun v => ?_⟩
        · rw [hmarked, List.mem_cons]
          by_cases hv : v = node
          · subst hv
            tauto
          · simp [hv]
        · rw [hfresh, List.mem_cons]
          by_cases hv : v = node
          · simp [hv, hnode]
          · simp [hv]

/-- The marks after one more round, and the nodes that are new among them. -/
def round (next : Nat → List Nat) (marked : Array Bool) (frontier : List Nat) :
    Array Bool × List Nat :=
  (frontier.flatMap next).foldl markFresh (marked, [])

theorem spread_succ (rounds : Nat) (marked : Array Bool) (frontier : List Nat)
    (h : frontier ≠ []) :
    spread next (rounds + 1) marked frontier =
      spread next rounds (round next marked frontier).1 (round next marked frontier).2 := by
  rw [spread, round]
  exact h

variable {marked : Array Bool} {frontier : List Nat}

@[simp]
theorem size_round : (round next marked frontier).1.size = marked.size :=
  (markFresh_foldl _ marked []).1

theorem round_marked (hnext : ∀ u, ∀ v ∈ next u, v < marked.size) :
    (round next marked frontier).1[v]? = some true ↔
      marked[v]? = some true ∨ ∃ u ∈ frontier, v ∈ next u := by
  rw [round, (markFresh_foldl _ marked []).2.1, List.mem_flatMap]
  refine or_congr_right ⟨And.left, ?_⟩
  rintro ⟨u, hu, hv⟩
  exact ⟨⟨u, hu, hv⟩, hnext u v hv⟩

theorem round_fresh :
    v ∈ (round next marked frontier).2 ↔
      (∃ u ∈ frontier, v ∈ next u) ∧ marked[v]? = some false := by
  rw [round, (markFresh_foldl _ marked []).2.2, List.mem_flatMap]
  simp

/-! ## All rounds -/

/-- Marks that hold the frontier and, the frontier apart, all that follows a mark. -/
structure Frontier (next : Nat → List Nat) (marked : Array Bool) (frontier : List Nat) : Prop where
  marked_of_mem : ∀ u ∈ frontier, marked[u]? = some true
  closed : ∀ u, marked[u]? = some true → u ∉ frontier → ∀ v ∈ next u, marked[v]? = some true

theorem Frontier.round (hnext : ∀ u, ∀ v ∈ next u, v < marked.size)
    (h : Frontier next marked frontier) :
    Frontier next (round next marked frontier).1 (round next marked frontier).2 := by
  constructor
  · intro u hu
    exact (round_marked hnext).2 (Or.inr (round_fresh.1 hu).1)
  · intro u hu hnot v hv
    rw [round_marked hnext] at hu ⊢
    by_cases hold : marked[u]? = some true
    · by_cases hmem : u ∈ frontier
      · exact Or.inr ⟨u, hmem, hv⟩
      · exact Or.inl (h.closed u hold hmem v hv)
    · -- A node marked in this round is new.
      obtain ⟨w, hw, hwu⟩ := hu.resolve_left hold
      have hlt := hnext w u hwu
      rw [Marks.eq_true_iff hlt, not_not] at hold
      exact absurd (round_fresh.2 ⟨⟨w, hw, hwu⟩, hold⟩) hnot

/-- A way out of the marks goes through the frontier. -/
theorem Frontier.passes (hf : Frontier next marked frontier) (h : Steps next k u v)
    (hu : marked[u]? = some true) :
    marked[v]? = some true ∨ ∃ w ∈ frontier, ∃ j ≤ k, Steps next j w v := by
  induction h with
  | refl => exact Or.inl hu
  | @head k u x v step rest ih =>
      by_cases hmem : u ∈ frontier
      · exact Or.inr ⟨u, hmem, k + 1, Nat.le_refl _, .head step rest⟩
      · rcases ih (hf.closed u hu hmem x step) with hv | ⟨w, hw, j, hj, hsteps⟩
        · exact Or.inl hv
        · exact Or.inr ⟨w, hw, j, Nat.le_succ_of_le hj, hsteps⟩

theorem spread_iff (hnext : ∀ u, ∀ v ∈ next u, v < marked.size)
    (hf : Frontier next marked frontier) (rounds : Nat) (v : Nat) :
    (spread next rounds marked frontier)[v]? = some true ↔
      marked[v]? = some true ∨ ∃ u ∈ frontier, ∃ k ≤ rounds, Steps next k u v := by
  induction rounds generalizing marked frontier with
  | zero =>
      rw [spread]
      refine ⟨Or.inl, ?_⟩
      rintro (hv | ⟨u, hu, k, hk, hsteps⟩)
      · exact hv
      · obtain rfl := Nat.le_zero.1 hk
        cases hsteps
        exact hf.marked_of_mem v hu
  | succ rounds ih =>
      by_cases hempty : frontier = []
      · subst hempty
        simp [spread]
      · rw [spread_succ rounds marked frontier hempty,
          ih (by simpa only [size_round] using hnext) (hf.round hnext), round_marked hnext]
        constructor
        · rintro ((hv | ⟨u, hu, hvu⟩) | ⟨w, hw, k, hk, hsteps⟩)
          · exact Or.inl hv
          · exact Or.inr ⟨u, hu, 1, Nat.succ_le_succ (Nat.zero_le _), .head hvu (.refl v)⟩
          · obtain ⟨⟨u, hu, hwu⟩, _⟩ := round_fresh.1 hw
            exact Or.inr ⟨u, hu, k + 1, Nat.succ_le_succ hk, .head hwu hsteps⟩
        · rintro (hv | ⟨u, hu, k, hk, hsteps⟩)
          · exact Or.inl (Or.inl hv)
          · cases hsteps with
            | refl => exact Or.inl (Or.inl (hf.marked_of_mem v hu))
            | @head k _ w _ step rest =>
                -- The first step ends on a mark; what follows may still have to pass the new nodes.
                have hw := (round_marked hnext).2 (Or.inr ⟨u, hu, step⟩)
                rcases (hf.round hnext).passes rest hw with hv | ⟨x, hx, j, hj, hsteps⟩
                · exact Or.inl ((round_marked hnext).1 hv)
                · exact Or.inr ⟨x, hx, j, Nat.le_trans hj (Nat.le_of_succ_le_succ hk), hsteps⟩

/-- The marks of the starts, and the starts themselves. -/
def start (size : Nat) (starts : List Nat) : Array Bool × List Nat :=
  starts.foldl markFresh (Array.replicate size false, [])

@[simp]
theorem size_start (size : Nat) (starts : List Nat) : (start size starts).1.size = size := by
  rw [start, (markFresh_foldl starts _ []).1, Array.size_replicate]

@[simp]
theorem start_marked {starts : List Nat} :
    (start size starts).1[v]? = some true ↔ v ∈ starts ∧ v < size := by
  rw [start, (markFresh_foldl starts _ []).2.1]
  simp

@[simp]
theorem mem_start {starts : List Nat} : v ∈ (start size starts).2 ↔ v ∈ starts ∧ v < size := by
  rw [start, (markFresh_foldl starts _ []).2.2]
  simp [Array.getElem?_replicate]

theorem frontier_start (starts : List Nat) :
    Frontier next (start size starts).1 (start size starts).2 := by
  constructor
  · intro u hu
    exact start_marked.2 (mem_start.1 hu)
  · intro u hu hnot
    exact absurd (mem_start.2 (start_marked.1 hu)) hnot

/-- The marks after a number of rounds are the nodes within as many steps of the starts. -/
theorem within_iff (hnext : ∀ u, ∀ v ∈ next u, v < size) (rounds : Nat) (starts : List Nat)
    (v : Nat) :
    (within size next rounds starts)[v]? = some true ↔
      ∃ u ∈ starts, u < size ∧ ∃ k ≤ rounds, Steps next k u v := by
  have hrange : ∀ u, ∀ v ∈ next u, v < (start size starts).1.size := by
    simpa only [size_start] using hnext
  have hspread : within size next rounds starts =
      spread next rounds (start size starts).1 (start size starts).2 := rfl
  rw [hspread, spread_iff hrange (frontier_start starts), start_marked]
  constructor
  · rintro (⟨hv, hlt⟩ | ⟨u, hu, hsteps⟩)
    · exact ⟨v, hv, hlt, 0, Nat.zero_le _, .refl v⟩
    · obtain ⟨hu, hlt⟩ := mem_start.1 hu
      exact ⟨u, hu, hlt, hsteps⟩
  · rintro ⟨u, hu, hlt, hsteps⟩
    exact Or.inr ⟨u, mem_start.2 ⟨hu, hlt⟩, hsteps⟩

/-- The marks of the full search are the nodes that can be reached. -/
theorem reachable_iff (hnext : ∀ u, ∀ v ∈ next u, v < size) (hu : u < size) (v : Nat) :
    (reachable size next u)[v]? = some true ↔
      Relation.ReflTransGen (fun u v => v ∈ next u) u v := by
  rw [reachable, within_iff hnext]
  constructor
  · rintro ⟨w, hw, _, k, _, hsteps⟩
    obtain rfl := List.mem_singleton.1 hw
    exact hsteps.reflTransGen
  · intro h
    obtain ⟨k, hk⟩ := exists_steps h
    have hplaces : ∀ x, ∀ y ∈ next x, y ∈ List.range size := fun x y hy =>
      List.mem_range.2 (hnext x y hy)
    obtain ⟨j, hj, hsteps⟩ := hk.exists_le hplaces
    exact ⟨u, List.mem_singleton_self u, hu, j, by simpa using hj, hsteps⟩

end LayerLint.Graph
