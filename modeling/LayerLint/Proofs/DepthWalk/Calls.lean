import LayerLint.Proofs.DepthWalk.Closure

/-!
# Calls on one table

Questions and reports on one table, in any order. Every walk ends by finishing the node that it
started from, and leaves the table as clean as it found it.
-/

namespace LayerLint.DepthTable

variable {g : Graph} {w w' : Walk} {table : DepthTable} {node : Nat}

/-! ## The last step of a walk -/

theorem run_add (w : Walk) (steps more : Nat) :
    w.run g (steps + more) = (w.run g steps).run g more := by
  induction steps generalizing w with
  | zero => rw [Nat.zero_add, Walk.run]
  | succ steps ih =>
      rw [Nat.succ_add, Walk.run, Walk.run]
      split
      · rename_i hnil
        exact (run_of_frames_eq_nil (List.isEmpty_iff.1 hnil) more).symm
      · exact ih _

/-- The outermost node stays on the path until it is the only one and has nothing to look at. -/
theorem getLast?_stack_move (hmove : Move g w w') (hlast : w.stack.getLast? = some node) :
    (∃ deepest, w.frames = [⟨node, [], deepest⟩]) ∨ w'.stack.getLast? = some node := by
  cases hmove with
  | @finish inner deepest outer hframes =>
      cases outer with
      | nil =>
          obtain rfl : inner = node := by simpa [Walk.stack, hframes] using hlast
          exact Or.inl ⟨deepest, hframes⟩
      | cons next outer =>
          refine Or.inr ?_
          rw [stack_finish hframes (depthOver g inner deepest)] at hlast
          simpa [Walk.stack, Walk.finish, Walk.learn] using hlast
  | learn hframes _ =>
      rw [stack_advance hframes]
      exact Or.inr hlast
  | pass hframes _ _ =>
      rw [stack_advance hframes]
      exact Or.inr hlast
  | enter hframes _ _ =>
      refine Or.inr ?_
      rw [Walk.stack, hframes] at hlast
      simpa [Walk.stack, Walk.enter] using hlast

theorem frames_ne_nil (hlast : w.stack.getLast? = some node) : w.frames ≠ [] := by
  intro hnil
  simp [Walk.stack, hnil] at hlast

theorem Aligned.exists_last_step (h : Aligned g w) (hlast : w.stack.getLast? = some node)
    {bound : Nat} (hload : w.load g ≤ bound) :
    ∃ steps deepest, steps < bound ∧ (w.run g steps).frames = [⟨node, [], deepest⟩] := by
  -- Each step takes from the load, so the outermost node cannot stay on the path for ever.
  induction bound generalizing w with
  | zero =>
      have hmove : Move g w (w.step g) := step_move (frames_ne_nil hlast)
      have hless := load_move h hmove
      omega
  | succ bound ih =>
      have hne := frames_ne_nil hlast
      have hmove : Move g w (w.step g) := step_move hne
      have hless := load_move h hmove
      rcases getLast?_stack_move hmove hlast with ⟨deepest, hframes⟩ | hlast
      · exact ⟨0, deepest, Nat.succ_pos bound, hframes⟩
      · obtain ⟨steps, deepest, hlt, hframes⟩ := ih (h.move hmove) hlast (by omega)
        refine ⟨steps + 1, deepest, Nat.succ_lt_succ hlt, ?_⟩
        rwa [Walk.run, if_neg (by simpa using hne)]

theorem step_last {deepest : Nat} (hframes : w.frames = [⟨node, [], deepest⟩]) :
    w.step g = w.finish node (depthOver g node deepest) [] := by
  simp [Walk.step, hframes, depthOver]

/-- The walk from a node comes to a last step, short of its bound. Only the node is left on the path
there, with nothing to look at, and the step finishes it with the depth that is answered. -/
def EndsWithAnswer (g : Graph) (table : DepthTable) (node : Nat) : Prop :=
  ∃ steps deepest, steps < stepBound g ∧
    ((Walk.enter g ⟨table, []⟩ node).run g steps).frames = [⟨node, [], deepest⟩] ∧
    depth g table node = (depthOver g node deepest,
      (((Walk.enter g ⟨table, []⟩ node).run g steps).step g).table)

theorem Settled.endsWithAnswer (hg : g.WellFormed) (h : Settled g table) (hnode : node < g.size)
    (hunknown : table.depth? node = none) : EndsWithAnswer g table node := by
  have ha := (h.enter hnode hunknown).aligned
  have hlast : (Walk.enter g ⟨table, []⟩ node).stack.getLast? = some node := rfl
  obtain ⟨steps, deepest, hlt, hframes⟩ :=
    ha.exists_last_step hlast (h.load_enter_le hg hnode hunknown)
  have hstep := step_last (g := g) hframes
  -- With this step the path is empty, so the run stays where it is up to its bound.
  have hrun : DepthTable.walkFrom g table node =
      ((Walk.enter g ⟨table, []⟩ node).run g steps).step g := by
    obtain ⟨more, hmore⟩ := Nat.exists_eq_add_of_lt hlt
    rw [DepthTable.walkFrom, hmore, Nat.add_assoc, run_add, Walk.run, if_neg (by simp [hframes])]
    exact run_of_frames_eq_nil (by simp [hstep, Walk.finish, Walk.learn]) more
  have hknown : node < ((Walk.enter g ⟨table, []⟩ node).run g steps).table.known.size := by
    rw [(run_induct Aligned.move steps ha).size_known]
    exact hnode
  refine ⟨steps, deepest, hlt, hframes, ?_⟩
  rw [depth_unknown hunknown, hrun, hstep, depth?_finish hknown, if_pos rfl, Option.getD_some]

/-! ## Calls -/

/-- A question, or a report on all nodes. -/
inductive Call where
  | ask (question : Question)
  | report
  deriving DecidableEq, Repr

/-- The table after a call. -/
def call (g : Graph) (table : DepthTable) : Call → DepthTable
  | .ask question => ask g table question
  | .report => (report g table).2

/-- The table after calls on a new one. -/
def afterCalls (g : Graph) (calls : List Call) : DepthTable :=
  calls.foldl (call g) (.empty g)

/-- The nodes whose depth a call asks for, one after the other. -/
def Call.nodes (g : Graph) : Call → List Nat
  | .ask (.node node) => [node]
  | .ask (.path path) => (g.node? path).toList
  | .report => g.nodes

theorem call_eq_askEach (g : Graph) (table : DepthTable) (c : Call) :
    call g table c = askEach g table (c.nodes g) := by
  cases c with
  | ask question =>
      have hnodes : (Call.ask question).nodes g = question.nodes g := by cases question <;> rfl
      rw [hnodes]
      exact ask_eq_askEach g table question
  | report => exact snd_report_eq g table

theorem calls_induct {P : DepthTable → Prop} (h : P table)
    (hdepth : ∀ table node, P table → P (depth g table node).2) (calls : List Call) :
    P (calls.foldl (call g) table) := by
  refine List.foldlRecOn calls (call g) h fun table h c _ => ?_
  rw [call_eq_askEach]
  exact askEach_induct hdepth h (c.nodes g)

theorem settled_afterCalls (hg : g.WellFormed) (calls : List Call) :
    Settled g (afterCalls g calls) ∧ Closed g (afterCalls g calls) :=
  calls_induct (P := fun table => Settled g table ∧ Closed g table)
    ⟨settled_empty g, closed_empty g⟩
    (fun _ node h => ⟨(h.1.depth hg node).1, h.1.closed_depth hg h.2 node⟩) calls

theorem retains_afterCalls (hg : g.WellFormed) (calls more : List Call) :
    Retains (afterCalls g calls) (afterCalls g (calls ++ more)) := by
  rw [afterCalls, afterCalls, List.foldl_append]
  refine (calls_induct (P := fun table => Settled g table ∧ Retains (afterCalls g calls) table)
    ⟨(settled_afterCalls hg calls).1, .refl _⟩ ?_ more).2
  rintro table node ⟨hsettled, hretains⟩
  exact ⟨(hsettled.depth hg node).1, hretains.trans (hsettled.depth hg node).2.1⟩

theorem call_afterCalls (g : Graph) (calls : List Call) (c : Call) :
    call g (afterCalls g calls) c =
      afterCalls g (calls ++ (c.nodes g).map fun node => .ask (.node node)) := by
  rw [call_eq_askEach, askEach, afterCalls, afterCalls, List.foldl_append, List.foldl_map]
  rfl

/-- A table with nothing on the path, in which what known nodes depend on is known. -/
structure Clean (g : Graph) (table : DepthTable) : Prop where
  onPath_eq : table.onPath = Array.replicate g.size false
  closed : Closed g table

theorem Settled.clean (h : Settled g table) (hclosed : Closed g table) : Clean g table := by
  refine ⟨Marks.eq_replicate_false h.aligned.size_onPath fun v hon => ?_, hclosed⟩
  exact absurd ((h.aligned.onPath_iff v).1 hon) List.not_mem_nil

/-- The table is clean after any calls. A question then is answered from the table, which stays as
it is, or by the last step of a walk, which adds the nodes that it reaches to those that are known.
Other calls are questions one after the other, and a depth that is known never changes. -/
theorem calls_leave_table_clean (project : Project) (calls : List Call) :
    Clean (Graph.build project) (afterCalls (Graph.build project) calls) ∧
    (∀ v < (Graph.build project).size,
      (∀ d, (afterCalls (Graph.build project) calls).depth? v = some d →
        depth (Graph.build project) (afterCalls (Graph.build project) calls) v =
          (d, afterCalls (Graph.build project) calls)) ∧
      ((afterCalls (Graph.build project) calls).depth? v = none →
        EndsWithAnswer (Graph.build project) (afterCalls (Graph.build project) calls) v) ∧
      ∀ u, (depth (Graph.build project) (afterCalls (Graph.build project) calls) v).2.Knows u ↔
        (afterCalls (Graph.build project) calls).Knows u ∨ (Graph.build project).Reaches v u) ∧
    (∀ c, call (Graph.build project) (afterCalls (Graph.build project) calls) c =
      afterCalls (Graph.build project)
        (calls ++ (c.nodes (Graph.build project)).map fun node => .ask (.node node))) ∧
    ∀ more, Retains (afterCalls (Graph.build project) calls)
      (afterCalls (Graph.build project) (calls ++ more)) := by
  have hg := Graph.build_wellFormed project
  obtain ⟨hsettled, hclosed⟩ := settled_afterCalls hg calls
  refine ⟨hsettled.clean hclosed, fun v hv => ⟨?_, ?_, ?_⟩, call_afterCalls _ calls,
    retains_afterCalls hg calls⟩
  · exact fun d hknown => depth_known hknown
  · exact hsettled.endsWithAnswer hg hv
  · exact (hsettled.knows_depth hg hclosed hv).2

theorem calls_leave_table_clean_knot :
    (afterCalls (Graph.build knot) [.ask (.path "b.go")]).depth? 1 = some 1 ∧
    depth (Graph.build knot) (afterCalls (Graph.build knot) [.ask (.path "b.go")]) 1 =
      (1, afterCalls (Graph.build knot) [.ask (.path "b.go")]) ∧
    (afterCalls (Graph.build knot) [.ask (.path "b.go")]).depth? 0 = none ∧
    EndsWithAnswer (Graph.build knot) (afterCalls (Graph.build knot) [.ask (.path "b.go")]) 0 := by
  obtain ⟨hfirst, hsecond, hone, hzero⟩ :
      0 < (Graph.build knot).size ∧ 1 < (Graph.build knot).size ∧
      (afterCalls (Graph.build knot) [.ask (.path "b.go")]).depth? 1 = some 1 ∧
      (afterCalls (Graph.build knot) [.ask (.path "b.go")]).depth? 0 = none := by decide +kernel
  obtain ⟨_, hanswers, _⟩ := calls_leave_table_clean knot [.ask (.path "b.go")]
  exact ⟨hone, (hanswers 1 hsecond).1 1 hone, hzero, (hanswers 0 hfirst).2.1 hzero⟩

end LayerLint.DepthTable
