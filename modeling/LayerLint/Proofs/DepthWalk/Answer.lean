import LayerLint.Proofs.DepthWalk.Fit

/-!
# Answers about depths

Questions are asked of one table, one after the other. Between two of them the table is settled,
what it knows never changes, and a report lists what it knows in the end.
-/

namespace LayerLint.DepthTable

variable {g : Graph} {table : DepthTable} {node : Nat}

/-- A table between two questions: nothing is on the path, and all that is known fits. -/
def Settled (g : Graph) (table : DepthTable) : Prop :=
  Consistent g ⟨table, []⟩

@[simp]
theorem depth?_empty (g : Graph) (v : Nat) : (empty g).depth? v = none := by
  rw [depth?, empty, Array.getElem?_replicate]
  split <;> rfl

theorem settled_empty (g : Graph) : Settled g (.empty g) := by
  refine ⟨?_, ?_, trivial⟩
  · constructor <;> simp [empty, Walk.stack, Array.getElem?_replicate]
  · intro v d hv
    rw [depth?_empty] at hv
    cases hv

/-- The walk from a node, run to its end. -/
def walkFrom (g : Graph) (table : DepthTable) (node : Nat) : Walk :=
  (Walk.enter g ⟨table, []⟩ node).run g (stepBound g)

theorem Settled.off (h : Settled g table) (hnode : node < g.size) :
    table.onPath[node]? = some false := by
  have hlt : node < table.onPath.size := h.aligned.size_onPath ▸ hnode
  by_contra hon
  have hmem := (h.aligned.onPath_iff node).1 ((Marks.eq_true_iff hlt).2 hon)
  simp [Walk.stack] at hmem

theorem Settled.enter (h : Settled g table) (hnode : node < g.size)
    (hunknown : table.depth? node = none) : Consistent g (Walk.enter g ⟨table, []⟩ node) := by
  refine consistent_enter (h.aligned.enter hunknown (h.off hnode) ?_) h.fits trivial
  simp [Walk.stack]

theorem Settled.load_enter_le (hg : g.WellFormed) (h : Settled g table) (hnode : node < g.size)
    (hunknown : table.depth? node = none) :
    (Walk.enter g ⟨table, []⟩ node).load g ≤ stepBound g := by
  rw [load_enter h.aligned hunknown (h.off hnode)]
  exact load_start_le hg table

theorem Settled.frames_walkFrom (hg : g.WellFormed) (h : Settled g table) (hnode : node < g.size)
    (hunknown : table.depth? node = none) : (walkFrom g table node).frames = [] :=
  run_frames_eq_nil (h.enter hnode hunknown).aligned (h.load_enter_le hg hnode hunknown)

/-- The walk ends with nothing on the path, keeps what was known and knows its first node. -/
theorem Settled.walkFrom (hg : g.WellFormed) (h : Settled g table) (hnode : node < g.size)
    (hunknown : table.depth? node = none) :
    Settled g (walkFrom g table node).table ∧ Retains table (walkFrom g table node).table ∧
      ∃ d, (walkFrom g table node).table.depth? node = some d := by
  have hrun : Consistent g (DepthTable.walkFrom g table node) ∧
      Retains table (DepthTable.walkFrom g table node).table ∧
      (node ∈ (DepthTable.walkFrom g table node).stack ∨
        ∃ d, (DepthTable.walkFrom g table node).table.depth? node = some d) := by
    refine run_induct (P := fun w => Consistent g w ∧ Retains table w.table ∧
      (node ∈ w.stack ∨ ∃ d, w.table.depth? node = some d)) ?_ _
      ⟨h.enter hnode hunknown, fun _ _ h => h, Or.inl List.mem_cons_self⟩
    rintro w w' ⟨hw, hmore, hfirst⟩ hmove
    have hkeep := hw.aligned.retains hmove
    refine ⟨hw.move hg hmove, hmore.trans hkeep, ?_⟩
    rcases hfirst with hmem | ⟨d, hd⟩
    · exact hw.aligned.mem_or_known hmove hmem
    · exact Or.inr ⟨d, hkeep node d hd⟩
  obtain ⟨hw, hmore, hfirst⟩ := hrun
  have hframes := h.frames_walkFrom hg hnode hunknown
  refine ⟨?_, hmore, hfirst.resolve_left (by simp [Walk.stack, hframes])⟩
  rw [Settled, ← hframes]
  exact hw

theorem depth_known {d : Nat} (hknown : table.depth? node = some d) :
    depth g table node = (d, table) := by
  rw [depth, hknown]

theorem depth_unknown (hunknown : table.depth? node = none) :
    depth g table node = (((walkFrom g table node).table.depth? node).getD 0,
      (walkFrom g table node).table) := by
  rw [depth, hunknown]
  rfl

theorem run_of_frames_eq_nil {w : Walk} (h : w.frames = []) (steps : Nat) : w.run g steps = w := by
  cases steps with
  | zero => rfl
  | succ steps => rw [Walk.run, if_pos (List.isEmpty_iff.2 h)]

/-- The walk from a number that is no node finds nothing. -/
theorem Settled.walkFrom_of_ge (hg : g.WellFormed) (h : Settled g table) (hnode : g.size ≤ node) :
    (DepthTable.walkFrom g table node).table = table := by
  have hon : ∀ mark, table.onPath.setIfInBounds node mark = table.onPath := fun _ =>
    Array.setIfInBounds_eq_of_size_le (h.aligned.size_onPath ▸ hnode)
  have hset : ∀ d, table.known.setIfInBounds node d = table.known := fun _ =>
    Array.setIfInBounds_eq_of_size_le (h.aligned.size_known ▸ hnode)
  have hdeps : g.deps node = [] := by
    rw [Graph.deps, Array.getElem?_eq_none (hg.size_dependencies ▸ hnode), Option.getD_none]
  have hstep : Walk.step g ⟨table, [⟨node, [], 0⟩]⟩ = ⟨table, []⟩ := by
    simp [Walk.step, Walk.finish, Walk.learn, hset, hon]
  rw [DepthTable.walkFrom, Walk.enter, hon, hdeps]
  cases stepBound g with
  | zero => rfl
  | succ steps =>
      rw [Walk.run, if_neg (by simp), hstep, run_of_frames_eq_nil rfl]

theorem Settled.table_depth_of_ge (hg : g.WellFormed) (h : Settled g table)
    (hnode : g.size ≤ node) : (depth g table node).2 = table := by
  cases hknown : table.depth? node with
  | some d => rw [depth_known hknown]
  | none =>
      rw [depth_unknown hknown]
      exact h.walkFrom_of_ge hg hnode

/-- A question leaves the table settled and keeps what was known, and the answer for a node is known
from then on. -/
theorem Settled.depth (hg : g.WellFormed) (h : Settled g table) (node : Nat) :
    Settled g (depth g table node).2 ∧ Retains table (depth g table node).2 ∧
      (node < g.size → (depth g table node).2.depth? node = some (depth g table node).1) := by
  by_cases hnode : node < g.size
  · cases hknown : table.depth? node with
    | some d =>
        rw [depth_known hknown]
        exact ⟨h, .refl table, fun _ => hknown⟩
    | none =>
        rw [depth_unknown hknown]
        obtain ⟨hsettled, hmore, d, hd⟩ := h.walkFrom hg hnode hknown
        exact ⟨hsettled, hmore, fun _ => by simp [hd]⟩
  · rw [h.table_depth_of_ge hg (Nat.le_of_not_lt hnode)]
    exact ⟨h, .refl table, fun hlt => absurd hlt hnode⟩

/-! ## One question after the other -/

/-- The table after the depths of nodes were asked for, one after the other. -/
def askEach (g : Graph) (table : DepthTable) (nodes : List Nat) : DepthTable :=
  nodes.foldl (fun table node => (depth g table node).2) table

/-- What every question for a depth keeps, questions for many keep. -/
theorem askEach_induct {P : DepthTable → Prop}
    (hdepth : ∀ table node, P table → P (depth g table node).2) (h : P table) (nodes : List Nat) :
    P (askEach g table nodes) :=
  List.foldlRecOn nodes _ h fun table h node _ => hdepth table node h

/-- A question about the depth of a node or of the file at a path. -/
inductive Question where
  | node (node : Nat)
  | path (path : String)
  deriving DecidableEq, Repr

/-- The table after a question. -/
def ask (g : Graph) (table : DepthTable) : Question → DepthTable
  | .node node => (depth g table node).2
  | .path path => (depthOf g table path).2

/-- The table after questions that were asked of a new one. -/
def after (g : Graph) (questions : List Question) : DepthTable :=
  questions.foldl (ask g) (.empty g)

theorem after_append (g : Graph) (questions more : List Question) :
    after g (questions ++ more) = more.foldl (ask g) (after g questions) :=
  List.foldl_append

/-- The node that a question is about, if there is one. -/
def Question.nodes (g : Graph) : Question → List Nat
  | .node v => [v]
  | .path file => (g.node? file).toList

theorem ask_eq_askEach (g : Graph) (table : DepthTable) (question : Question) :
    ask g table question = askEach g table (question.nodes g) := by
  cases question with
  | node node => rfl
  | path path =>
      simp only [ask, depthOf, Question.nodes]
      cases g.node? path <;> rfl

theorem after_induct {P : DepthTable → Prop} (hempty : P (.empty g))
    (hdepth : ∀ table node, P table → P (depth g table node).2) (questions : List Question) :
    P (after g questions) := by
  refine List.foldlRecOn questions (ask g) hempty fun table h question _ => ?_
  rw [ask_eq_askEach]
  exact askEach_induct hdepth h (question.nodes g)

theorem settled_after (hg : g.WellFormed) (questions : List Question) :
    Settled g (after g questions) :=
  after_induct (settled_empty g) (fun _ node h => (h.depth hg node).1) questions

/-! ## Reports -/

/-- The entry of a node in a report by a table that knows its depth. -/
def entryOf (g : Graph) (table : DepthTable) (node : Nat) : FileDepth :=
  ⟨node, (table.depth? node).getD 0, g.cyclicNodes[node]?.getD false⟩

/-- One question of a report. -/
def tell (g : Graph) (state : List FileDepth × DepthTable) (node : Nat) :
    List FileDepth × DepthTable :=
  (⟨node, (depth g state.2 node).1, g.cyclicNodes[node]?.getD false⟩ :: state.1,
    (depth g state.2 node).2)

theorem report_eq (g : Graph) (table : DepthTable) :
    report g table = (⟨(g.nodes.foldl (tell g) ([], table)).1.reverse⟩,
      (g.nodes.foldl (tell g) ([], table)).2) :=
  rfl

/-- A report asks for one node after the other. -/
theorem snd_report_eq (g : Graph) (table : DepthTable) :
    (report g table).2 = askEach g table g.nodes := by
  rw [report_eq]
  exact (List.foldl_hom Prod.snd fun _ _ => rfl).symm

/-- A report that has come to a node: the nodes before it are known and listed, last first. -/
structure Told (g : Graph) (table : DepthTable) (count : Nat)
    (state : List FileDepth × DepthTable) : Prop where
  settled : Settled g state.2
  retains : Retains table state.2
  known : ∀ v < count, ∃ d, state.2.depth? v = some d
  entries_eq : state.1.reverse = (List.range count).map (entryOf g state.2)

theorem Told.tell {state : List FileDepth × DepthTable} (hg : g.WellFormed)
    (h : Told g table node state) (hnode : node < g.size) :
    Told g table (node + 1) (tell g state node) := by
  obtain ⟨hsettled, hkeep, hanswer⟩ := h.settled.depth hg node
  have hanswer := hanswer hnode
  have hold : (List.range node).map (entryOf g state.2) =
      (List.range node).map (entryOf g (depth g state.2 node).2) := by
    refine List.map_congr_left fun v hv => ?_
    obtain ⟨d, hd⟩ := h.known v (List.mem_range.1 hv)
    rw [entryOf, entryOf, hd, hkeep v d hd]
  refine ⟨hsettled, h.retains.trans hkeep, ?_, ?_⟩
  · intro v hv
    rcases Nat.lt_succ_iff_lt_or_eq.1 hv with hv | rfl
    · obtain ⟨d, hd⟩ := h.known v hv
      exact ⟨d, hkeep v d hd⟩
    · exact ⟨_, hanswer⟩
  · have hentry : (DepthTable.tell g state node).1.reverse =
        state.1.reverse ++ [entryOf g (depth g state.2 node).2 node] := by
      simp [DepthTable.tell, entryOf, hanswer]
    rw [hentry, h.entries_eq, hold, List.range_succ, List.map_append]
    rfl

/-- A report leaves the table settled with every node known, and lists what it knows. -/
theorem Settled.report (hg : g.WellFormed) (h : Settled g table) :
    Settled g (report g table).2 ∧ Retains table (report g table).2 ∧
      (∀ v < g.size, ∃ d, (report g table).2.depth? v = some d) ∧
      (report g table).1.entries = g.nodes.map (entryOf g (report g table).2) := by
  have hstart : Told g table 0 ([], table) :=
    ⟨h, .refl table, fun v hv => absurd hv (Nat.not_lt_zero v), rfl⟩
  have htold : Told g table g.size (g.nodes.foldl (tell g) ([], table)) :=
    Graph.foldl_range_induct hstart fun node state hnode hstate => hstate.tell hg hnode
  rw [report_eq]
  exact ⟨htold.settled, htold.retains, htold.known, htold.entries_eq⟩

theorem Settled.getElem?_report (hg : g.WellFormed) (h : Settled g table) (hnode : node < g.size) :
    (DepthTable.report g table).1.entries[node]? =
      some (entryOf g (DepthTable.report g table).2 node) := by
  obtain ⟨_, _, _, hentries⟩ := h.report hg
  simp [hentries, Graph.nodes, hnode]

theorem Settled.depth?_report (hg : g.WellFormed) (h : Settled g table) (hnode : node < g.size) :
    (DepthTable.report g table).2.depth? node =
      some (entryOf g (DepthTable.report g table).2 node).depth := by
  obtain ⟨_, _, hknown, _⟩ := h.report hg
  obtain ⟨d, hd⟩ := hknown node hnode
  simp [entryOf, hd]

end LayerLint.DepthTable
