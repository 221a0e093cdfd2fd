import Mathlib.Data.Nat.Order.Lemmas
import LayerLint.Proofs.CycleWalk.Passed

/-!
# The walk step by step

At each of its steps the walk reads its tables within their bounds, and path, frames and marks tell
the same. It goes into each included node at one step and looks at each edge between included nodes
at one step.
-/

namespace LayerLint.CycleWalk

/-- The walk after so many steps. -/
def stateAt (g : Graph) (included : Nat → Bool) (steps : Nat) : State :=
  (State.initial g).run g included false steps

/-- The innermost node looks at an edge next. -/
def State.LooksAt (s : State) (u v : Nat) : Prop :=
  ∃ pending outer, s.frames = ⟨u, v :: pending⟩ :: outer

/-- An edge was looked at. -/
def State.HasLooked (s : State) (u v : Nat) : Prop :=
  s.visited[u]? = some true ∧ ¬s.Awaits u v

/-- What the walk may read next lies within the tables, and the place from which it would cut the
path lies on it. -/
structure InRange (g : Graph) (s : State) : Prop where
  size_dependencies : g.dependencies.size = g.size
  size_visited : s.visited.size = g.size
  size_onPath : s.onPath.size = g.size
  size_position : s.position.size = g.size
  roots_lt : ∀ v ∈ s.roots, v < g.size
  path_lt : ∀ v ∈ s.path, v < g.size
  pending_lt : ∀ f ∈ s.frames, f.node < g.size ∧ ∀ v ∈ f.pending, v < g.size
  position_lt : ∀ v : Nat, s.onPath[v]? = some true →
    ∃ i, s.position[v]? = some i ∧ i < s.path.size

/-- The path lists the nodes of the frames, the marks are on them, and each is where its position
says. -/
structure InStep (s : State) : Prop where
  path_eq : s.path.toList = (s.frames.map Frame.node).reverse
  onPath_iff : ∀ v : Nat, s.onPath[v]? = some true ↔ v ∈ s.frames.map Frame.node
  position_eq : ∀ v ∈ s.frames.map Frame.node, ∃ i, s.position[v]? = some i ∧ s.path[i]? = some v

variable {g : Graph} {included : Nat → Bool} {s s' : State} {u v node target : Nat}
  {pending : List Nat} {outer : List Frame}

/-! ## Steps -/

theorem stateAt_cases (g : Graph) (included : Nat → Bool) (k : Nat) :
    (stateAt g included k).frames = [] ∧ stateAt g included (k + 1) = stateAt g included k ∨
      Move g included (stateAt g included k) (stateAt g included (k + 1)) := by
  have hsucc : stateAt g included (k + 1) = (stateAt g included k).run g included false 1 :=
    run_add false _ k 1
  rw [hsucc, State.run, State.run]
  split
  · rename_i hover
    rcases State.isOver_iff.1 hover with ⟨_, hframes⟩ | ⟨hfirst, _⟩
    · exact Or.inl ⟨hframes, rfl⟩
    · cases hfirst
  · rename_i hover
    rw [State.isOver_iff, not_or] at hover
    exact Or.inr (step_move hover.1)

theorem aligned_stateAt (g : Graph) (included : Nat → Bool) (k : Nat) :
    Aligned g included (stateAt g included k) :=
  run_induct false Aligned.move k (aligned_initial g included)

theorem stateAt_stepBound (g : Graph) (included : Nat → Bool) :
    stateAt g included (stepBound g) = final g included false :=
  rfl

theorem exists_end (hwf : g.WellFormed) (included : Nat → Bool) :
    ∃ n ≤ stepBound g, ∀ k, (stateAt g included k).isOver false = true ↔ n ≤ k := by
  have hbound : (stateAt g included (stepBound g)).isOver false = true :=
    State.isOver_iff.2 (Or.inl (final_done hwf included))
  have hend : ∃ k, (stateAt g included k).isOver false = true := ⟨_, hbound⟩
  refine ⟨Nat.find hend, Nat.find_min' hend hbound, fun k => ⟨Nat.find_min' hend, fun hk => ?_⟩⟩
  have hover := Nat.find_spec hend
  obtain ⟨more, rfl⟩ := Nat.exists_eq_add_of_le hk
  rw [stateAt, run_add, ← stateAt, run_of_isOver hover]
  exact hover

/-! ## Bounds -/

theorem roots_move (hmove : Move g included s s') (h : s.roots <:+ g.nodes) :
    s'.roots <:+ g.nodes := by
  cases hmove with
  | skipRoot _ hroots _ => exact (List.suffix_cons _ _).trans (hroots ▸ h)
  | enterRoot _ hroots _ _ => exact (List.suffix_cons _ _).trans (hroots ▸ h)
  | _ => exact h

theorem roots_stateAt (g : Graph) (included : Nat → Bool) (k : Nat) :
    (stateAt g included k).roots <:+ g.nodes :=
  run_induct (P := fun s => s.roots <:+ g.nodes) false (fun h hmove => roots_move hmove h) k
    List.suffix_rfl

theorem Aligned.inStep (h : Aligned g included s) : InStep s := by
  refine ⟨h.path_eq, h.onPath_iff, fun v hv => ?_⟩
  rw [← List.mem_reverse] at hv
  obtain ⟨i, hi⟩ := List.getElem?_of_mem (h.path_eq ▸ hv)
  rw [Array.getElem?_toList] at hi
  exact ⟨i, h.position_eq i v hi, hi⟩

theorem Aligned.inRange (hwf : g.WellFormed) (h : Aligned g included s)
    (hroots : s.roots <:+ g.nodes) : InRange g s := by
  have hstack : ∀ v ∈ s.stack, v < g.size := fun v hv =>
    h.size_visited ▸ (Array.getElem?_eq_some_iff.1 (h.visited_of_mem v hv)).1
  refine ⟨hwf.size_dependencies, h.size_visited, h.size_onPath, h.size_position, ?_, ?_, ?_, ?_⟩
  · exact fun v hv => List.mem_range.1 (hroots.mem hv)
  · intro v hv
    rw [← Array.mem_toList_iff, h.path_eq, List.mem_reverse] at hv
    exact hstack v hv
  · intro f hf
    exact ⟨hstack f.node (List.mem_map_of_mem hf),
      fun v hv => hwf.deps_lt ((h.pending_suffix f hf).mem hv)⟩
  · intro v hon
    obtain ⟨i, hposition, hi⟩ := h.inStep.position_eq v ((h.onPath_iff v).1 hon)
    exact ⟨i, hposition, (Array.getElem?_eq_some_iff.1 hi).1⟩

theorem Aligned.cleared (h : Aligned g included s) (hframes : s.frames = []) :
    s.path = #[] ∧ s.onPath = Array.replicate g.size false := by
  have hstack : s.stack = [] := by simp [State.stack, hframes]
  refine ⟨?_, Marks.eq_replicate_false h.size_onPath fun v hon => ?_⟩
  · have hpath := h.path_eq
    rw [hstack] at hpath
    exact Array.toList_eq_nil_iff.1 hpath
  · rw [h.onPath_iff, hstack] at hon
    cases hon

/-! ## Events that come once -/

/-- An event that sets a mark which is never taken back comes once, if the mark is set in the
end. -/
theorem existsUnique_of_mark {P E : Nat → Prop} (hstart : ¬P 0)
    (hstep : ∀ k, P (k + 1) ↔ P k ∨ E k) (hnew : ∀ k, E k → ¬P k) (hend : ∃ k, P k) :
    ∃! k, E k := by
  have hkeep : ∀ {k k'}, k ≤ k' → P k → P k' := by
    intro k k' hle hk
    induction hle with
    | refl => exact hk
    | step _ ih => exact (hstep _).2 (Or.inl ih)
  obtain ⟨k, hbefore, hafter⟩ := Nat.exists_not_and_succ_of_not_zero_of_exists hstart hend
  refine ⟨k, ((hstep k).1 hafter).resolve_left hbefore, fun k' hk' => ?_⟩
  rcases Nat.lt_trichotomy k' k with hlt | heq | hlt
  · exact absurd (hkeep hlt ((hstep k').2 (Or.inr hk'))) hbefore
  · exact heq
  · exact absurd (hkeep hlt hafter) (hnew k' hk')

/-! ## Going into nodes -/

theorem pop_ne_push (path : Array Nat) (v : Nat) : path.pop ≠ path.push v := by
  intro heq
  have hsize := congrArg Array.size heq
  rw [Array.size_pop, Array.size_push] at hsize
  omega

theorem path_enter : (s.enter g node).path = s.path.push v ↔ v = node := by
  simp [State.enter, Array.push_inj_right, eq_comm]

theorem visited_enter_iff_push (hnew : s.visited[node]? = some false) :
    (s.enter g node).visited[v]? = some true ↔
      s.visited[v]? = some true ∨ (s.enter g node).path = s.path.push v := by
  rw [visited_enter_iff hnew, path_enter, or_comm]

/-- A node is marked as entered when it is put on the path. -/
theorem visited_move (hmove : Move g included s s') :
    s'.visited[v]? = some true ↔ s.visited[v]? = some true ∨ s'.path = s.path.push v := by
  cases hmove with
  | skipRoot => simp
  | @enterRoot root roots _ _ hnew _ => exact visited_enter_iff_push (s := { s with roots }) hnew
  | leave => simp [State.leave, pop_ne_push]
  | pass => simp
  | close => simp [State.close]
  | @enter node target pending outer _ _ hnew =>
      exact visited_enter_iff_push (s := { s with frames := ⟨node, pending⟩ :: outer }) hnew

theorem visited_of_push (hmove : Move g included s s') (hpush : s'.path = s.path.push v) :
    s.visited[v]? = some false := by
  cases hmove with
  | skipRoot => exact absurd hpush Array.ne_push_self
  | @enterRoot root roots _ _ hnew _ =>
      rwa [(path_enter (s := { s with roots })).1 hpush]
  | leave => exact absurd hpush (pop_ne_push _ v)
  | pass => exact absurd hpush Array.ne_push_self
  | close => exact absurd hpush Array.ne_push_self
  | @enter node target pending outer _ _ hnew =>
      rwa [(path_enter (s := { s with frames := ⟨node, pending⟩ :: outer })).1 hpush]

theorem not_visited_initial (g : Graph) (v : Nat) : (State.initial g).visited[v]? ≠ some true :=
  Marks.replicate_ne_true g.size v

theorem push_stateAt {k : Nat}
    (hpush : (stateAt g included (k + 1)).path = (stateAt g included k).path.push v) :
    Move g included (stateAt g included k) (stateAt g included (k + 1)) := by
  refine (stateAt_cases g included k).resolve_left fun hstay => ?_
  rw [hstay.2] at hpush
  exact Array.ne_push_self hpush

/-- Only included nodes are put on the path. -/
theorem included_of_push {k : Nat}
    (hpush : (stateAt g included (k + 1)).path = (stateAt g included k).path.push v) :
    v < g.size ∧ included v = true := by
  have ha := aligned_stateAt g included (k + 1)
  have hvisited := (visited_move (push_stateAt hpush)).2 (Or.inr hpush)
  exact ⟨ha.size_visited ▸ (Array.getElem?_eq_some_iff.1 hvisited).1,
    ha.included_of_visited v hvisited⟩

theorem existsUnique_push (hwf : g.WellFormed) (hv : v < g.size) (hin : included v = true) :
    ∃! k, (stateAt g included (k + 1)).path = (stateAt g included k).path.push v := by
  refine existsUnique_of_mark (P := fun k => (stateAt g included k).visited[v]? = some true)
    (not_visited_initial g v) (fun k => ?_) (fun k hpush => ?_)
    ⟨stepBound g, final_visited hwf hv hin⟩
  · rcases stateAt_cases g included k with ⟨_, hstay⟩ | hmove
    · simp [hstay]
    · exact visited_move hmove
  · simp [visited_of_push (push_stateAt hpush) hpush]

/-! ## Looking at edges -/

theorem looksAt_cons (hframes : s.frames = ⟨node, target :: pending⟩ :: outer) :
    s.LooksAt u v ↔ u = node ∧ v = target := by
  simp [State.LooksAt, hframes, eq_comm]

theorem not_looksAt_nil (hframes : s.frames = []) : ¬s.LooksAt u v := by
  simp [State.LooksAt, hframes]

theorem State.LooksAt.awaits (h : s.LooksAt u v) : s.Awaits u v := by
  obtain ⟨pending, outer, hframes⟩ := h
  exact ⟨_, hframes ▸ List.mem_cons_self, rfl, List.mem_cons_self⟩

theorem hasLooked_enter (hnew : s.visited[node]? = some false) (hdep : g.DependsOn u v) :
    (s.enter g node).HasLooked u v ↔ s.HasLooked u v := by
  rw [State.HasLooked, visited_enter_iff hnew, awaits_enter, State.HasLooked]
  by_cases hu : u = node
  · subst hu
    simp [hnew, hdep]
  · simp [hu]

theorem Aligned.hasLooked_advance (hwf : g.WellFormed) (ha : Aligned g included s)
    (hframes : s.frames = ⟨node, target :: pending⟩ :: outer) :
    State.HasLooked { s with frames := ⟨node, pending⟩ :: outer } u v ↔
      s.HasLooked u v ∨ s.LooksAt u v := by
  rw [looksAt_cons hframes, State.HasLooked, State.HasLooked, awaits_advance hframes]
  by_cases heq : u = node ∧ v = target
  · obtain ⟨rfl, rfl⟩ := heq
    have hvisited := ha.visited_of_mem u (by simp [State.stack, hframes])
    simp [hvisited, ha.not_awaits_advance hwf hframes]
  · simp [heq]

/-- An edge counts as looked at from the step on that looks at it. -/
theorem Aligned.hasLooked_move (hwf : g.WellFormed) (ha : Aligned g included s)
    (hmove : Move g included s s') (hdep : g.DependsOn u v) :
    s'.HasLooked u v ↔ s.HasLooked u v ∨ s.LooksAt u v := by
  cases hmove with
  | skipRoot hframes _ _ =>
      rw [or_iff_left (not_looksAt_nil hframes)]
      rfl
  | @enterRoot root roots hframes _ hnew _ =>
      rw [or_iff_left (not_looksAt_nil hframes)]
      exact hasLooked_enter (s := { s with roots }) hnew hdep
  | leave hframes =>
      have hnot : ¬s.LooksAt u v := by simp [State.LooksAt, hframes]
      rw [or_iff_left hnot, State.HasLooked, State.HasLooked, awaits_leave hframes]
      rfl
  | pass hframes _ => exact ha.hasLooked_advance hwf hframes
  | close hframes _ _ => exact ha.hasLooked_advance hwf hframes
  | @enter node target pending outer hframes _ hnew =>
      rw [← ha.hasLooked_advance hwf hframes]
      exact hasLooked_enter (s := { s with frames := ⟨node, pending⟩ :: outer }) hnew hdep

theorem existsUnique_looksAt (hwf : g.WellFormed) (hdep : g.DependsOn u v)
    (hin : included u = true) : ∃! k, (stateAt g included k).LooksAt u v := by
  refine existsUnique_of_mark (P := fun k => (stateAt g included k).HasLooked u v)
    (fun h => not_visited_initial g u h.1) (fun k => ?_) (fun k hlooks h => h.2 hlooks.awaits)
    ⟨stepBound g, final_visited hwf (hwf.source_lt hdep) hin, ?_⟩
  · rcases stateAt_cases g included k with ⟨hframes, hstay⟩ | hmove
    · rw [hstay, or_iff_left (not_looksAt_nil hframes)]
    · exact (aligned_stateAt g included k).hasLooked_move hwf hmove hdep
  · -- Nothing is left to look at in the end.
    rintro ⟨f, hf, _⟩
    rw [stateAt_stepBound, (final_done hwf included).2] at hf
    cases hf

/-! ## The whole walk -/

/-- The walk is over after finitely many steps. At each of them its tables are read within their
bounds and agree with the path, which is empty between two roots. Each included node is put on the
path at one step, and each edge between included nodes is looked at at one step. -/
theorem walk_handles_each_once (project : Project) (included : Nat → Bool) :
    walk (Graph.build project) included false =
      (stateAt (Graph.build project) included
        (stepBound (Graph.build project))).found.toList.map (.ofNodes (Graph.build project)) ∧
    (∃ n ≤ stepBound (Graph.build project),
      ∀ k, (stateAt (Graph.build project) included k).isOver false = true ↔ n ≤ k) ∧
    (∀ k, InRange (Graph.build project) (stateAt (Graph.build project) included k) ∧
      InStep (stateAt (Graph.build project) included k) ∧
      ((stateAt (Graph.build project) included k).frames = [] →
        (stateAt (Graph.build project) included k).path = #[] ∧
        (stateAt (Graph.build project) included k).onPath =
          Array.replicate (Graph.build project).size false)) ∧
    (∀ v < (Graph.build project).size, included v = true →
      ∃! k, (stateAt (Graph.build project) included (k + 1)).path =
        (stateAt (Graph.build project) included k).path.push v) ∧
    (∀ k v, (stateAt (Graph.build project) included (k + 1)).path =
        (stateAt (Graph.build project) included k).path.push v →
      v < (Graph.build project).size ∧ included v = true) ∧
    ∀ u v, (Graph.build project).DependsOn u v → included u = true → included v = true →
      ∃! k, (stateAt (Graph.build project) included k).LooksAt u v := by
  have hwf := Graph.build_wellFormed project
  refine ⟨rfl, exists_end hwf included, fun k => ?_, fun v => existsUnique_push hwf,
    fun k v => included_of_push, fun u v hdep hin _ => existsUnique_looksAt hwf hdep hin⟩
  have ha := aligned_stateAt (Graph.build project) included k
  exact ⟨ha.inRange hwf (roots_stateAt _ included k), ha.inStep, ha.cleared⟩

theorem walk_handles_each_once_knot :
    (Graph.build knot).DependsOn 3 2 ∧
    (∃! k, (stateAt (Graph.build knot) (· != 0) (k + 1)).path =
      (stateAt (Graph.build knot) (· != 0) k).path.push 2) ∧
    ∃! k, (stateAt (Graph.build knot) (· != 0) k).LooksAt 3 2 := by
  obtain ⟨hlt, hdep⟩ : 2 < (Graph.build knot).size ∧ (Graph.build knot).DependsOn 3 2 := by
    decide +kernel
  obtain ⟨_, _, _, hpushed, _, hlooked⟩ := walk_handles_each_once knot (· != 0)
  exact ⟨hdep, hpushed 2 hlt (by decide), hlooked 3 2 hdep (by decide) (by decide)⟩

end LayerLint.CycleWalk
