import LayerLint.Proofs.Figure.Drawn
import LayerLint.Proofs.Graph.Queue

/-!
# Figures with a depth limit

With a limit, a figure shows the nodes of its layer that some entry node leads to in as many steps,
whether they are looked for in rounds or by a queue.
-/

namespace LayerLint.Figure

variable {g : Graph} {map : LayerMap} {options : DrawOptions} {u v steps : Nat} {nodes : List Nat}

/-- A node that the choice of a layer leaves in the figure. -/
def InLayer (g : Graph) (map : LayerMap) (options : DrawOptions) (v : Nat) : Prop :=
  v < g.size ∧ ∀ name, options.onlyLayer = some name → map.nameOf v = some name

/-- A node that steps are counted from: one that nobody depends on, or the first one if all are
depended on. -/
def IsEntry (g : Graph) (map : LayerMap) (options : DrawOptions) (v : Nat) : Prop :=
  InLayer g map options v ∧
    (g.fanIn v = 0 ∨ ∀ w, InLayer g map options w → g.fanIn w ≠ 0 ∧ v ≤ w)

@[simp]
theorem mem_layerNodes_iff : v ∈ layerNodes g map options ↔ InLayer g map options v := by
  rw [layerNodes, List.mem_filter, Graph.nodes, List.mem_range, InLayer]
  cases options.onlyLayer with
  | none => simp
  | some name => simp

theorem layerNodes_pairwise : (layerNodes g map options).Pairwise (· < ·) :=
  List.pairwise_lt_range.sublist List.filter_sublist

/-! ## Entry nodes -/

theorem mem_take_one_iff (hsorted : nodes.Pairwise (· < ·)) :
    v ∈ nodes.take 1 ↔ v ∈ nodes ∧ ∀ w ∈ nodes, v ≤ w := by
  cases nodes with
  | nil => simp
  | cons first nodes =>
      have hfirst := (List.pairwise_cons.1 hsorted).1
      rw [List.take_succ_cons, List.take_zero, List.mem_singleton]
      constructor
      · rintro rfl
        exact ⟨List.mem_cons_self,
          List.forall_mem_cons.2 ⟨Nat.le_refl v, fun w hw => Nat.le_of_lt (hfirst w hw)⟩⟩
      · rintro ⟨hv, hleast⟩
        rcases List.mem_cons.1 hv with hv | hv
        · exact hv
        · exact absurd (hleast first List.mem_cons_self) (Nat.not_le_of_lt (hfirst v hv))

theorem mem_entryNodes_iff (hsorted : nodes.Pairwise (· < ·)) :
    v ∈ entryNodes g nodes ↔
      v ∈ nodes ∧ (g.fanIn v = 0 ∨ ∀ w ∈ nodes, g.fanIn w ≠ 0 ∧ v ≤ w) := by
  unfold entryNodes
  split
  · rename_i hnone
    have hall : ∀ w ∈ nodes, g.fanIn w ≠ 0 := by simpa using hnone
    rw [mem_take_one_iff hsorted]
    constructor
    · rintro ⟨hv, hleast⟩
      exact ⟨hv, Or.inr fun w hw => ⟨hall w hw, hleast w hw⟩⟩
    · rintro ⟨hv, hzero | hleast⟩
      · exact absurd hzero (hall v hv)
      · exact ⟨hv, fun w hw => (hleast w hw).2⟩
  · rename_i hsome
    rw [List.mem_filter, beq_iff_eq]
    refine and_congr_right fun _ => ⟨Or.inl, fun h => h.resolve_right fun hall => hsome ?_⟩
    simpa using fun w hw => (hall w hw).1

theorem mem_entryNodes_layerNodes :
    v ∈ entryNodes g (layerNodes g map options) ↔ IsEntry g map options v := by
  simp only [mem_entryNodes_iff layerNodes_pairwise, mem_layerNodes_iff, IsEntry]

/-! ## Near nodes -/

theorem mem_nearNodes_iff (h : g.WellFormed) :
    v ∈ nearNodes g nodes steps ↔
      v ∈ nodes ∧ ∃ u ∈ entryNodes g nodes, u < g.size ∧ ∃ k ≤ steps, Graph.Steps g.deps k u v := by
  rw [nearNodes, List.mem_filter, Marks.getD_false_iff, Graph.within_iff fun u v => h.deps_lt]

theorem entryNodes_sublist : (entryNodes g nodes).Sublist nodes := by
  unfold entryNodes
  split
  · exact List.take_sublist 1 nodes
  · exact List.filter_sublist

/-- The near nodes are those that a search by a queue meets from the entry nodes, once its queue is
empty. -/
theorem nearNodes_eq_filter_search (h : g.WellFormed) (hnodes : ∀ v ∈ nodes, v < g.size)
    {looks : Nat} (hlooks : nodes.length + g.size ≤ looks) {s : Graph.Search}
    (hs : s = (Graph.Search.start g.size (entryNodes g nodes)).run g.deps steps looks) :
    s.queue = [] ∧ nearNodes g nodes steps = nodes.filter fun v => (s.depth? v).isSome := by
  have hentries : ∀ u ∈ entryNodes g nodes, u < g.size := fun u hu =>
    hnodes u (entryNodes_sublist.subset hu)
  have henough : (entryNodes g nodes).length + g.size ≤ looks :=
    Nat.le_trans (Nat.add_le_add_right entryNodes_sublist.length_le g.size) hlooks
  have hnext : ∀ u, ∀ v ∈ g.deps u, v < g.size := fun u v => h.deps_lt
  subst hs
  refine (Graph.Search.run_start hnext hentries henough).imp_right fun hmet => ?_
  refine List.filter_congr fun v _ => Bool.eq_iff_iff.2 ?_
  rw [Marks.getD_false_iff, hmet]

theorem nearNodes_sublist (h : g.WellFormed) {more : Nat} (hmore : steps ≤ more) :
    (nearNodes g nodes steps).Sublist (nearNodes g nodes more) := by
  refine List.monotone_filter_right nodes fun v hv => ?_
  rw [Marks.getD_false_iff, Graph.within_iff fun u v => h.deps_lt] at hv ⊢
  obtain ⟨u, hu, hlt, k, hk, hsteps⟩ := hv
  exact ⟨u, hu, hlt, k, Nat.le_trans hk hmore, hsteps⟩

theorem drawnNodes_limited (hdepth : options.maxDepth = some steps) (hpos : 1 ≤ steps) :
    drawnNodes g map options = nearNodes g (layerNodes g map options) steps := by
  cases steps with
  | zero => cases hpos
  | succ steps => simp only [drawnNodes, hdepth]

theorem mem_drawnNodes_limited (h : g.WellFormed) (hdepth : options.maxDepth = some steps)
    (hpos : 1 ≤ steps) :
    v ∈ drawnNodes g map options ↔ InLayer g map options v ∧
      ∃ u, IsEntry g map options u ∧ ∃ k ≤ steps, Graph.Steps g.deps k u v := by
  rw [drawnNodes_limited hdepth hpos, mem_nearNodes_iff h, mem_layerNodes_iff]
  simp only [mem_entryNodes_layerNodes]
  refine and_congr_right fun _ => exists_congr fun u => ?_
  exact ⟨fun ⟨hentry, _, hsteps⟩ => ⟨hentry, hsteps⟩,
    fun ⟨hentry, hsteps⟩ => ⟨hentry, hentry.1.1, hsteps⟩⟩

/-- Under a limit of at least one step, a figure shows, in the order of the graph, the nodes of its
layer that an entry node of the layer leads to in at most as many steps, along any nodes. A larger
limit shows no fewer. -/
theorem depth_limit_keeps_near_nodes (project : Project) (map : LayerMap) (options : DrawOptions)
    {steps : Nat} (hdepth : options.maxDepth = some steps) (hpos : 1 ≤ steps)
    {g : Graph} (hg : g = Graph.build project) :
    (draw g map options).nodes.Pairwise (· < ·) ∧
    (∀ v, v ∈ (draw g map options).nodes ↔ InLayer g map options v ∧
      ∃ u, IsEntry g map options u ∧ ∃ k ≤ steps, Graph.Steps g.deps k u v) ∧
    ∀ more, steps ≤ more → (draw g map options).nodes.Sublist
      (draw g map { options with maxDepth := some more }).nodes := by
  have hwell : g.WellFormed := hg ▸ Graph.build_wellFormed project
  refine ⟨drawnNodes_pairwise, fun v => mem_drawnNodes_limited hwell hdepth hpos, ?_⟩
  intro more hmore
  have hlarger : drawnNodes g map { options with maxDepth := some more } =
      nearNodes g (layerNodes g map options) more :=
    drawnNodes_limited rfl (Nat.le_trans hpos hmore)
  simp only [draw, hlarger, drawnNodes_limited hdepth hpos]
  exact nearNodes_sublist hwell hmore

/-- An example: a chain of imports that leaves a layer and comes back. -/
def bypass : Project :=
  { files := ["main.go", "core/a.go", "util.go", "core/b.go", "core/c.go"].map .ofPath
    imports :=
      [("core/a.go", [.ofSpecifier "util.go"]), ("util.go", [.ofSpecifier "core/b.go"]),
        ("core/b.go", [.ofSpecifier "./c"])] }

/-- An example: the layer of that chain. -/
def bypassLayers : LayerMap :=
  { layers := [⟨"core", "core/**", []⟩], positions := #[none, some 0, none, some 0, some 0] }

theorem depth_limit_keeps_near_nodes_bypass :
    (draw (Graph.build bypass) bypassLayers
      { onlyLayer := some "core", maxDepth := some 2 }).nodes = [1, 3] ∧
    (∃ u, IsEntry (Graph.build bypass) bypassLayers
      { onlyLayer := some "core", maxDepth := some 2 } u ∧
        ∃ k ≤ 2, Graph.Steps (Graph.build bypass).deps k u 3) ∧
    [1, 3].Sublist (draw (Graph.build bypass) bypassLayers
      { onlyLayer := some "core", maxDepth := some 3 }).nodes := by
  obtain ⟨_, hnear, hmore⟩ := depth_limit_keeps_near_nodes bypass bypassLayers
    { onlyLayer := some "core", maxDepth := some 2 } rfl (by decide) rfl
  have hnodes : (draw (Graph.build bypass) bypassLayers
      { onlyLayer := some "core", maxDepth := some 2 }).nodes = [1, 3] := by decide +kernel
  have hfar : 3 ∈ (draw (Graph.build bypass) bypassLayers
      { onlyLayer := some "core", maxDepth := some 2 }).nodes := by rw [hnodes]; decide
  exact ⟨hnodes, ((hnear 3).1 hfar).2, hnodes ▸ hmore 3 (by decide)⟩

end LayerLint.Figure
