import LayerLint.Proofs.Graph.Reach

/-!
# A search by a queue

The nodes that were met have a depth, and those to be looked at wait in a queue. A look at the first
of them gives the next depth to the nodes that follow it and have none, unless its own depth is the
limit. In the end the nodes that have a depth are those that the search in rounds marks.
-/

namespace LayerLint.Graph

/-- How far a search has come. -/
structure Search where
  depths : Array (Option Nat)
  queue : List Nat

namespace Search

/-- The depth of a node that was met. -/
def depth? (s : Search) (v : Nat) : Option Nat :=
  s.depths[v]?.join

/-- The start from some nodes. -/
def start (size : Nat) (starts : List Nat) : Search :=
  { depths := starts.foldl (fun depths v => depths.setIfInBounds v (some 0))
      (Array.replicate size none)
    queue := starts }

/-- Gives a depth to a node and puts it into the queue, unless it has one. -/
def meet (depth : Nat) (s : Search) (v : Nat) : Search :=
  if s.depth? v = none then ⟨s.depths.setIfInBounds v (some depth), s.queue ++ [v]⟩ else s

/-- Looks at the first node of the queue. -/
def step (next : Nat → List Nat) (limit : Nat) (s : Search) : Search :=
  match s.queue with
  | [] => s
  | node :: rest =>
    let depth := (s.depth? node).getD 0
    if limit ≤ depth then { s with queue := rest }
    else (next node).foldl (meet (depth + 1)) { s with queue := rest }

/-- Takes so many steps. -/
def run (next : Nat → List Nat) (limit : Nat) : Nat → Search → Search
  | 0, s => s
  | steps + 1, s => run next limit steps (s.step next limit)

/-- The nodes that have no depth or wait in the queue. -/
def load (s : Search) : Nat :=
  s.queue.length + s.depths.count none

/-- A search at a depth. What was met is near the starts, what waits is as deep as that or one
deeper, in order, and nothing is deeper. -/
structure Level (next : Nat → List Nat) (limit size : Nat) (starts : List Nat) (d : Nat)
    (s : Search) : Prop where
  size_eq : s.depths.size = size
  origin : ∀ u ∈ starts, s.depth? u = some 0
  near : ∀ v k, s.depth? v = some k → k ≤ limit ∧ ∃ u ∈ starts, Steps next k u v
  le_succ : ∀ v k, s.depth? v = some k → k ≤ d + 1
  waiting : ∀ v ∈ s.queue, ∃ k, s.depth? v = some k ∧ d ≤ k
  sorted : s.queue.Pairwise fun u v => (s.depth? u).getD 0 ≤ (s.depth? v).getD 0

/-- What follows a node that was looked at was met, at most one deeper. -/
def Closed (next : Nat → List Nat) (limit : Nat) (s : Search) : Prop :=
  ∀ v k, s.depth? v = some k → v ∉ s.queue → k < limit →
    ∀ w ∈ next v, ∃ j ≤ k + 1, s.depth? w = some j

/-- A later search knows the depths that were known, and what is new waits in its queue. -/
structure Extends (s s' : Search) : Prop where
  kept : ∀ v k, s.depth? v = some k → s'.depth? v = some k
  fresh : ∀ v k, s'.depth? v = some k → v ∉ s'.queue → s.depth? v = some k ∧ v ∉ s.queue

variable {next : Nat → List Nat} {limit size d v : Nat} {starts : List Nat} {s s' s'' : Search}

theorem Extends.refl (s : Search) : Extends s s :=
  ⟨fun _ _ h => h, fun _ _ h hnot => ⟨h, hnot⟩⟩

theorem Extends.trans (h : Extends s s') (h' : Extends s' s'') : Extends s s'' := by
  refine ⟨fun v k hk => h'.kept v k (h.kept v k hk), fun v k hk hnot => ?_⟩
  obtain ⟨hk, hnot⟩ := h'.fresh v k hk hnot
  exact h.fresh v k hk hnot

/-! ## Meeting a node -/

theorem meet_known (h : s.depth? v ≠ none) (depth : Nat) : s.meet depth v = s :=
  if_neg h

theorem meet_new (h : s.depth? v = none) (depth : Nat) :
    s.meet depth v = ⟨s.depths.setIfInBounds v (some depth), s.queue ++ [v]⟩ :=
  if_pos h

theorem depth?_meet_new (h : s.depth? v = none) (hv : v < s.depths.size) (depth w : Nat) :
    (s.meet depth v).depth? w = if w = v then some depth else s.depth? w := by
  rw [meet_new h, depth?, Marks.getElem?_set _ hv]
  by_cases hw : w = v
  · simp [hw]
  · simp [hw, depth?]

theorem extends_meet (hv : v < s.depths.size) (depth : Nat) : Extends s (s.meet depth v) := by
  by_cases hnew : s.depth? v = none
  · refine ⟨fun w k hk => ?_, fun w k hk hnot => ?_⟩
    · rw [depth?_meet_new hnew hv, if_neg, hk]
      rintro rfl
      cases hnew.symm.trans hk
    · rw [meet_new hnew] at hnot
      obtain ⟨hnot, hne⟩ : w ∉ s.queue ∧ w ≠ v := by simpa using hnot
      rw [depth?_meet_new hnew hv, if_neg hne] at hk
      exact ⟨hk, hnot⟩
  · rw [meet_known hnew]
    exact .refl s

theorem depth?_meet_ne_none (hv : v < s.depths.size) (depth : Nat) :
    (s.meet depth v).depth? v ≠ none := by
  by_cases hnew : s.depth? v = none
  · simp [depth?_meet_new hnew hv]
  · rwa [meet_known hnew]

theorem Level.meet (h : Level next limit size starts d s) (hv : v < size) (hd : d < limit)
    (hnear : ∃ u ∈ starts, Steps next (d + 1) u v) :
    Level next limit size starts d (s.meet (d + 1) v) := by
  by_cases hnew : s.depth? v = none
  · have hlt : v < s.depths.size := h.size_eq ▸ hv
    have hdepth := depth?_meet_new hnew hlt (d + 1)
    -- What waits already has a depth, so it is another node.
    have hold : ∀ w ∈ s.queue, w ≠ v := by
      rintro w hw rfl
      obtain ⟨k, hk, _⟩ := h.waiting w hw
      cases hnew.symm.trans hk
    have hsame : ∀ w ∈ s.queue, (s.meet (d + 1) v).depth? w = s.depth? w := fun w hw => by
      rw [hdepth, if_neg (hold w hw)]
    have hqueue : (s.meet (d + 1) v).queue = s.queue ++ [v] := by rw [meet_new hnew]
    refine ⟨?_, fun u hu => ?_, fun w k hk => ?_, fun w k hk => ?_, fun w hw => ?_, ?_⟩
    · rw [meet_new hnew, Array.size_setIfInBounds, h.size_eq]
    · exact (extends_meet hlt (d + 1)).kept u 0 (h.origin u hu)
    · rw [hdepth] at hk
      split at hk
      · obtain rfl := Option.some.inj hk
        rename_i hw
        exact ⟨hd, hw ▸ hnear⟩
      · exact h.near w k hk
    · rw [hdepth] at hk
      split at hk
      · exact Nat.le_of_eq (Option.some.inj hk).symm
      · exact h.le_succ w k hk
    · rw [hqueue, List.mem_append, List.mem_singleton] at hw
      rcases hw with hw | rfl
      · rw [hsame w hw]
        exact h.waiting w hw
      · exact ⟨d + 1, by rw [hdepth, if_pos rfl], Nat.le_succ d⟩
    · rw [hqueue, List.pairwise_append]
      refine ⟨h.sorted.imp_of_mem fun hu hw hle => ?_, List.pairwise_singleton _ _, ?_⟩
      · rwa [hsame _ hu, hsame _ hw]
      · intro u hu w hw
        obtain rfl := List.mem_singleton.1 hw
        obtain ⟨k, hk, _⟩ := h.waiting u hu
        rw [hsame u hu, hdepth, if_pos rfl, hk]
        exact h.le_succ u k hk
  · rwa [meet_known hnew]

theorem load_meet (hv : v < s.depths.size) (depth : Nat) : (s.meet depth v).load = s.load := by
  by_cases hnew : s.depth? v = none
  · have hnone : s.depths[v] = none := by simpa [depth?, hv] using hnew
    have hpos : 0 < s.depths.count none := Array.count_pos_iff.2 (hnone ▸ Array.getElem_mem hv)
    have hcount : (s.depths.setIfInBounds v (some depth)).count none = s.depths.count none - 1 := by
      simp [Array.setIfInBounds, hv, Array.count_set, hnone]
    rw [meet_new hnew, load, load, hcount, List.length_append, List.length_singleton]
    omega
  · rw [meet_known hnew]

/-! ## A step -/

theorem Level.meet_all (h : Level next limit size starts d s) (hd : d < limit) {nodes : List Nat}
    (hnodes : ∀ v ∈ nodes, v < size ∧ ∃ u ∈ starts, Steps next (d + 1) u v) :
    Level next limit size starts d (nodes.foldl (Search.meet (d + 1)) s) ∧
      Extends s (nodes.foldl (Search.meet (d + 1)) s) ∧
      (∀ v ∈ nodes, ∃ k, (nodes.foldl (Search.meet (d + 1)) s).depth? v = some k) ∧
      (nodes.foldl (Search.meet (d + 1)) s).load = s.load := by
  induction nodes generalizing s with
  | nil => exact ⟨h, .refl s, fun v hv => absurd hv List.not_mem_nil, rfl⟩
  | cons v nodes ih =>
      obtain ⟨hv, hnear⟩ := hnodes v List.mem_cons_self
      have hlt : v < s.depths.size := h.size_eq ▸ hv
      obtain ⟨hlevel, hextends, hknown, hload⟩ :=
        ih (h.meet hv hd hnear) fun w hw => hnodes w (List.mem_cons_of_mem v hw)
      refine ⟨hlevel, (extends_meet hlt (d + 1)).trans hextends, ?_,
        hload.trans (load_meet hlt (d + 1))⟩
      intro w hw
      rcases List.mem_cons.1 hw with rfl | hw
      · obtain ⟨k, hk⟩ := Option.ne_none_iff_exists'.1 (depth?_meet_ne_none hlt (d + 1))
        exact ⟨k, hextends.kept w k hk⟩
      · exact hknown w hw

theorem Level.pop {node : Nat} {rest : List Nat} (h : Level next limit size starts d s)
    (hqueue : s.queue = node :: rest) :
    ∃ k, s.depth? node = some k ∧ Level next limit size starts k { s with queue := rest } := by
  obtain ⟨k, hk, hle⟩ := h.waiting node (hqueue ▸ List.mem_cons_self)
  have hsorted := h.sorted
  rw [hqueue, List.pairwise_cons] at hsorted
  refine ⟨k, hk, h.size_eq, h.origin, h.near, fun v j hj => ?_, fun v hv => ?_, hsorted.2⟩
  · exact Nat.le_trans (h.le_succ v j hj) (Nat.succ_le_succ hle)
  · obtain ⟨j, hj, _⟩ := h.waiting v (hqueue ▸ List.mem_cons_of_mem node hv)
    have hfirst := hsorted.1 v hv
    rw [hk, hj] at hfirst
    exact ⟨j, hj, hfirst⟩

theorem step_cons {node k : Nat} {rest : List Nat} (hqueue : s.queue = node :: rest)
    (hk : s.depth? node = some k) :
    s.step next limit = if limit ≤ k then { s with queue := rest }
      else (next node).foldl (Search.meet (k + 1)) { s with queue := rest } := by
  simp [step, hqueue, hk]

theorem Level.step (hnext : ∀ u, ∀ v ∈ next u, v < size) {node : Nat} {rest : List Nat}
    (h : Level next limit size starts d s) (hclosed : Closed next limit s)
    (hqueue : s.queue = node :: rest) :
    (∃ k, Level next limit size starts k (s.step next limit)) ∧
      Closed next limit (s.step next limit) ∧ (s.step next limit).load + 1 = s.load := by
  obtain ⟨k, hk, hpop⟩ := h.pop hqueue
  have hload : load { s with queue := rest } + 1 = s.load := by
    simp only [load, hqueue, List.length_cons]
    omega
  -- The node in hand apart, what was looked at was so before.
  have hlooked : ∀ v j, s.depth? v = some j → v ∉ rest → v ≠ node → j < limit →
      ∀ w ∈ next v, ∃ i ≤ j + 1, s.depth? w = some i := by
    intro v j hj hnot hne
    refine hclosed v j hj ?_
    rw [hqueue, List.mem_cons]
    exact not_or.2 ⟨hne, hnot⟩
  rw [step_cons hqueue hk]
  split
  · rename_i hlimit
    refine ⟨⟨k, hpop⟩, fun v j hj hnot hlt => ?_, hload⟩
    refine hlooked v j hj hnot ?_ hlt
    rintro rfl
    obtain rfl := Option.some.inj (hk.symm.trans hj)
    exact absurd hlt (Nat.not_lt_of_le hlimit)
  · rename_i hlimit
    have hlt := Nat.lt_of_not_le hlimit
    have hnodes : ∀ v ∈ next node, v < size ∧ ∃ u ∈ starts, Steps next (k + 1) u v := by
      intro v hv
      obtain ⟨_, u, hu, hsteps⟩ := h.near node k hk
      exact ⟨hnext node v hv, u, hu, hsteps.concat hv⟩
    obtain ⟨hlevel, hextends, hknown, hsame⟩ := hpop.meet_all hlt hnodes
    refine ⟨⟨k, hlevel⟩, fun v j hj hnot hless w hw => ?_, by rw [hsame, hload]⟩
    obtain ⟨hbefore, hout⟩ := hextends.fresh v j hj hnot
    by_cases hne : v = node
    · subst hne
      obtain rfl : k = j := Option.some.inj (hk.symm.trans hbefore)
      obtain ⟨i, hi⟩ := hknown w hw
      exact ⟨i, hlevel.le_succ w i hi, hi⟩
    · obtain ⟨i, hle, hi⟩ := hlooked v j hbefore hout hne hless w hw
      exact ⟨i, hle, hextends.kept w i hi⟩

/-! ## The whole search -/

theorem run_of_queue_nil (h : s.queue = []) (steps : Nat) : s.run next limit steps = s := by
  have hstep : s.step next limit = s := by simp [Search.step, h]
  induction steps with
  | zero => rfl
  | succ steps ih => rw [run, hstep, ih]

theorem Level.run (hnext : ∀ u, ∀ v ∈ next u, v < size) (h : Level next limit size starts d s)
    (hclosed : Closed next limit s) {steps : Nat} (hsteps : s.load ≤ steps) :
    (∃ k, Level next limit size starts k (s.run next limit steps)) ∧
      Closed next limit (s.run next limit steps) ∧ (s.run next limit steps).queue = [] := by
  induction steps generalizing s d with
  | zero =>
      have hqueue : s.queue = [] := List.length_eq_zero_iff.1 (by rw [load] at hsteps; omega)
      exact ⟨⟨d, h⟩, hclosed, hqueue⟩
  | succ steps ih =>
      cases hqueue : s.queue with
      | nil =>
          rw [run_of_queue_nil hqueue]
          exact ⟨⟨d, h⟩, hclosed, hqueue⟩
      | cons node rest =>
          obtain ⟨⟨k, hlevel⟩, hclosed, hload⟩ := h.step hnext hclosed hqueue
          exact ih hlevel hclosed (by omega)

/-- Without a queue, a way leads from one depth to the next. -/
theorem Closed.exists_depth {k u j : Nat} (h : Closed next limit s) (hqueue : s.queue = [])
    (hsteps : Steps next k u v) (hj : s.depth? u = some j) (hlimit : j + k ≤ limit) :
    ∃ i ≤ j + k, s.depth? v = some i := by
  induction hsteps generalizing j with
  | refl => exact ⟨j, Nat.le_refl j, hj⟩
  | @head k u w v hfirst _ ih =>
      obtain ⟨i, hi, hw⟩ := h u j hj (by simp [hqueue]) (by omega) w hfirst
      obtain ⟨i', hi', hv⟩ := ih hw (by omega)
      exact ⟨i', by omega, hv⟩

theorem depth?_start (hstarts : ∀ u ∈ starts, u < size) (v : Nat) :
    (start size starts).depth? v = if v ∈ starts then some 0 else none := by
  rw [depth?, start, Marks.getElem?_foldl_set, Array.size_replicate]
  by_cases hv : v ∈ starts
  · simp [hv, hstarts v hv]
  · simp only [hv, false_and, if_false, Array.getElem?_replicate]
    split <;> rfl

theorem level_start (hstarts : ∀ u ∈ starts, u < size) :
    Level next limit size starts 0 (start size starts) := by
  have hdepth := depth?_start hstarts
  have hzero : ∀ v k, (start size starts).depth? v = some k → v ∈ starts ∧ k = 0 := by
    intro v k hk
    rw [hdepth] at hk
    split at hk
    · exact ⟨by assumption, (Option.some.inj hk).symm⟩
    · cases hk
  have horigin : ∀ u ∈ starts, (start size starts).depth? u = some 0 := fun u hu => by
    rw [hdepth, if_pos hu]
  refine ⟨by simp [start], horigin, fun v k hk => ?_, fun v k hk => ?_, fun v hv => ?_, ?_⟩
  · obtain ⟨hv, rfl⟩ := hzero v k hk
    exact ⟨Nat.zero_le limit, v, hv, .refl v⟩
  · obtain ⟨_, rfl⟩ := hzero v k hk
    exact Nat.zero_le 1
  · exact ⟨0, horigin v hv, Nat.le_refl 0⟩
  · refine List.pairwise_of_forall_mem_list fun u hu w hw => ?_
    simp only [horigin u hu, horigin w hw, Nat.le_refl]

theorem load_start_le (size : Nat) (starts : List Nat) :
    (start size starts).load ≤ starts.length + size := by
  have hcount : (start size starts).depths.count none ≤ size := by
    have hle : (start size starts).depths.count none ≤ (start size starts).depths.size :=
      Array.count_le_size
    simpa [start] using hle
  exact Nat.add_le_add_left hcount starts.length

/-- A search has an empty queue after as many steps as there are starts and nodes. The nodes that
have a depth then are those that the search in rounds marks. -/
theorem run_start (hnext : ∀ u, ∀ v ∈ next u, v < size) (hstarts : ∀ u ∈ starts, u < size)
    {steps : Nat} (hsteps : starts.length + size ≤ steps) :
    ((start size starts).run next limit steps).queue = [] ∧
      ∀ v, (((start size starts).run next limit steps).depth? v).isSome = true ↔
        (within size next limit starts)[v]? = some true := by
  have hclosed : Closed next limit (start size starts) := by
    intro v k hk hnot
    have hnone : (start size starts).depth? v = none :=
      (depth?_start hstarts v).trans (if_neg hnot)
    cases hnone.symm.trans hk
  obtain ⟨⟨k, hlevel⟩, hclosed, hqueue⟩ := (level_start hstarts).run hnext hclosed
    (Nat.le_trans (load_start_le size starts) hsteps)
  refine ⟨hqueue, fun v => ?_⟩
  rw [within_iff hnext, Option.isSome_iff_exists]
  constructor
  · rintro ⟨j, hj⟩
    obtain ⟨hle, u, hu, hway⟩ := hlevel.near v j hj
    exact ⟨u, hu, hstarts u hu, j, hle, hway⟩
  · rintro ⟨u, hu, _, j, hle, hway⟩
    obtain ⟨i, _, hi⟩ := hclosed.exists_depth hqueue hway (hlevel.origin u hu) (by omega)
    exact ⟨i, hi⟩

end Search

end LayerLint.Graph
