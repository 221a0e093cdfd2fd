import Mathlib.Data.List.Flatten
import LayerLint.Proofs.CycleWalk.Passed

/-!
# Cycles among some of the nodes

The walk through some of the nodes finds what the full walk finds in the graph that has only the
edges between them. The full walk mirrors the other: it stands still where the other passes over an
edge that leads out, and it goes into a node left out and back where the other does not start.
-/

namespace LayerLint

namespace Graph

/-- The graph with all its nodes and the edges between the included ones. -/
def induced (g : Graph) (included : Nat → Bool) : Graph :=
  { g with
    dependencies := g.dependencies.mapIdx fun node targets =>
      if included node then targets.filter included else []
    edges := g.edges.filter fun e => included e.1 && included e.2 }

variable {g : Graph} {included : Nat → Bool} {u v : Nat}

theorem deps_induced (g : Graph) (included : Nat → Bool) (v : Nat) :
    (g.induced included).deps v = if included v then (g.deps v).filter included else [] := by
  simp only [deps, induced, Array.getElem?_mapIdx]
  cases g.dependencies[v]? <;> simp

theorem mem_deps_induced :
    v ∈ (g.induced included).deps u ↔ v ∈ g.deps u ∧ included u = true ∧ included v = true := by
  rw [deps_induced]
  by_cases hu : included u = true <;> simp [hu]

theorem WellFormed.induced (h : g.WellFormed) (included : Nat → Bool) :
    (g.induced included).WellFormed := by
  refine ⟨?_, h.paths_nodup, ?_, ?_, ?_, ?_⟩
  · simpa [Graph.induced, size] using h.size_dependencies
  · exact fun huv => h.deps_lt (mem_deps_induced.1 huv).1
  · exact fun huv => h.deps_ne (mem_deps_induced.1 huv).1
  · intro u
    rw [deps_induced]
    split
    · exact (h.deps_nodup u).filter _
    · exact List.nodup_nil
  · have hedges : (g.induced included).edges.toList =
        g.edges.toList.filter fun e => included e.1 && included e.2 := by
      simp [Graph.induced]
    rw [hedges, h.edges_eq, List.filter_flatMap]
    refine List.flatMap_congr fun u _ => ?_
    rw [List.filter_map, deps_induced]
    by_cases hu : included u = true <;> simp [hu, Function.comp_def]

end Graph

namespace CycleWalk

/-! ## The mirror -/

/-- A frame that has only included nodes still to look at. -/
def Frame.restrict (included : Nat → Bool) (f : Frame) : Frame :=
  ⟨f.node, f.pending.filter included⟩

/-- A walk that is where another one is, with the nodes left out taken from its frames. -/
structure Mirrors (included : Nat → Bool) (s t : State) : Prop where
  roots_eq : t.roots = s.roots
  frames_eq : t.frames = s.frames.map (Frame.restrict included)
  path_eq : t.path = s.path
  visited : Marks.AgreeOn included s.visited t.visited
  onPath : Marks.AgreeOn included s.onPath t.onPath
  position : Marks.AgreeOn included s.position t.position
  found_eq : t.found = s.found

variable {g : Graph} {included : Nat → Bool} {s s' t : State} {node target : Nat}
  {pending : List Nat} {outer : List Frame}

theorem mirrors_initial (g : Graph) (included : Nat → Bool) :
    Mirrors included (.initial g) (.initial (g.induced included)) :=
  ⟨rfl, rfl, rfl, fun _ _ => rfl, fun _ _ => rfl, fun _ _ => rfl, rfl⟩

theorem Mirrors.withRoots (h : Mirrors included s t) (roots : List Nat) :
    Mirrors included { s with roots } { t with roots } :=
  { h with roots_eq := rfl }

theorem Mirrors.advance (h : Mirrors included s t) (node : Nat) (pending : List Nat)
    (outer : List Frame) :
    Mirrors included { s with frames := ⟨node, pending⟩ :: outer }
      { t with frames := ⟨node, pending.filter included⟩ :: outer.map (.restrict included) } :=
  { h with frames_eq := rfl }

theorem Mirrors.enter (h : Mirrors included s t) (hin : included node = true) :
    Mirrors included (s.enter g node) (t.enter (g.induced included) node) := by
  refine ⟨h.roots_eq, ?_, ?_, h.visited.set node true, h.onPath.set node true, ?_, h.found_eq⟩
  · simp [State.enter, Frame.restrict, h.frames_eq, Graph.deps_induced, hin]
  · simp [State.enter, h.path_eq]
  · simpa [State.enter, h.path_eq] using h.position.set node s.path.size

theorem Mirrors.leave (h : Mirrors included s t) (node : Nat) (outer : List Frame) :
    Mirrors included (s.leave node outer) (t.leave node (outer.map (.restrict included))) := by
  refine ⟨h.roots_eq, rfl, ?_, h.visited, h.onPath.set node false, h.position, h.found_eq⟩
  simp [State.leave, h.path_eq]

theorem Mirrors.close (h : Mirrors included s t) (hin : included target = true) :
    Mirrors included (s.close target) (t.close target) := by
  refine { h with found_eq := ?_ }
  simp [State.close, h.found_eq, h.path_eq, h.position target hin]

/-- The mirror goes into a node that is left out, and back. -/
theorem Mirrors.visit (h : Mirrors included s t) (hframes : s.frames = [])
    (hout : included node = false) :
    Mirrors included s ((t.enter (g.induced included) node).leave node []) := by
  refine ⟨h.roots_eq, ?_, ?_, h.visited.set_out hout true,
    (h.onPath.set_out hout true).set_out hout false, h.position.set_out hout _, h.found_eq⟩
  · rw [hframes]
    rfl
  · simp [State.enter, State.leave, h.path_eq]

/-! ## Moves -/

theorem Mirrors.frames_cons (h : Mirrors included s t)
    (hframes : s.frames = ⟨node, target :: pending⟩ :: outer) (hin : included target = true) :
    t.frames = ⟨node, target :: pending.filter included⟩ :: outer.map (.restrict included) := by
  simp [h.frames_eq, hframes, Frame.restrict, hin]

theorem Mirrors.frames_skip (h : Mirrors included s t)
    (hframes : s.frames = ⟨node, target :: pending⟩ :: outer) (hout : included target = false) :
    Mirrors included { s with frames := ⟨node, pending⟩ :: outer } t := by
  refine { h with frames_eq := ?_ }
  simp [h.frames_eq, hframes, Frame.restrict, hout]

/-- What a move of the walk does, the mirror does in some moves. -/
theorem Mirrors.move (h : Mirrors included s t) (hmove : Move g included s s') :
    ∃ t', Relation.ReflTransGen (Move (g.induced included) fun _ => true) t t' ∧
      Mirrors included s' t' := by
  cases hmove with
  | @skipRoot root roots hframes hroots hskip =>
      have hframes' : t.frames = [] := by simp [h.frames_eq, hframes]
      have hroots' : t.roots = root :: roots := h.roots_eq.trans hroots
      by_cases hnew : t.visited[root]? = some false
      · have hout : included root = false := by
          by_contra hin
          rw [Bool.not_eq_false] at hin
          rw [h.visited root hin] at hnew
          simp [hin, hnew] at hskip
        -- The node has no edges left, so the mirror comes back with its next move.
        refine ⟨_, .tail (.single (.enterRoot hframes' hroots' hnew rfl)) (.leave ?_),
          (h.withRoots roots).visit hframes hout⟩
        simp [State.enter, hframes', Graph.deps_induced, hout]
      · exact ⟨_, .single (.skipRoot hframes' hroots' (Or.inl hnew)), h.withRoots roots⟩
  | @enterRoot root roots hframes hroots hnew hin =>
      have hframes' : t.frames = [] := by simp [h.frames_eq, hframes]
      refine ⟨_, .single (.enterRoot hframes' (h.roots_eq.trans hroots) ?_ rfl),
        (h.withRoots roots).enter hin⟩
      rw [h.visited root hin, hnew]
  | @leave node outer hframes =>
      have hframes' : t.frames = ⟨node, []⟩ :: outer.map (.restrict included) := by
        simp [h.frames_eq, hframes, Frame.restrict]
      exact ⟨_, .single (.leave hframes'), h.leave node outer⟩
  | @pass node target pending outer hframes hpass =>
      by_cases hin : included target = true
      · refine ⟨_, .single (.pass (h.frames_cons hframes hin) (Or.inr ?_)),
          h.advance node pending outer⟩
        rw [h.onPath target hin, h.visited target hin]
        exact hpass.resolve_left (by simp [hin])
      · exact ⟨t, .refl, h.frames_skip hframes (Bool.not_eq_true _ ▸ hin)⟩
  | @close node target pending outer hframes hin hon =>
      refine ⟨_, .single (.close (h.frames_cons hframes hin) rfl ?_),
        (h.advance node pending outer).close hin⟩
      rw [h.onPath target hin, hon]
  | @enter node target pending outer hframes hin hnew =>
      refine ⟨_, .single (.enter (h.frames_cons hframes hin) rfl ?_),
        (h.advance node pending outer).enter hin⟩
      rw [h.visited target hin, hnew]

/-- The full walk of the graph between the included nodes comes to a state that mirrors this one. -/
def State.Mirrored (g : Graph) (included : Nat → Bool) (s : State) : Prop :=
  ∃ t, Relation.ReflTransGen (Move (g.induced included) fun _ => true)
    (.initial (g.induced included)) t ∧ Mirrors included s t

theorem State.Mirrored.move (h : s.Mirrored g included) (hmove : Move g included s s') :
    s'.Mirrored g included := by
  obtain ⟨t, hmoves, hmirrors⟩ := h
  obtain ⟨t', hmore, hmirrors⟩ := hmirrors.move hmove
  exact ⟨t', hmoves.trans hmore, hmirrors⟩

theorem walk_induced (hwf : g.WellFormed) (included : Nat → Bool) :
    walk g included false = walk (g.induced included) (fun _ => true) false := by
  obtain ⟨t, hmoves, hmirrors⟩ : (final g included false).Mirrored g included :=
    run_induct false State.Mirrored.move _ ⟨_, .refl, mirrors_initial g included⟩
  obtain ⟨hroots, hframes⟩ := final_done hwf included
  have hfinal : final (g.induced included) (fun _ => true) false = t := by
    refine final_of_moves (hwf.induced included) hmoves (hmirrors.roots_eq.trans hroots) ?_
    rw [hmirrors.frames_eq, hframes, List.map_nil]
  rw [walk_eq, walk_eq, hfinal, hmirrors.found_eq]
  rfl

end CycleWalk

namespace Graph

/-- The graph with the edges between the files of a layer. -/
def layerPart (g : Graph) (map : LayerMap) (name : String) : Graph :=
  g.induced fun v => map.nameOf v == some name

theorem deps_layerPart (g : Graph) (map : LayerMap) (name : String) (v : Nat) :
    (g.layerPart map name).deps v =
      if map.nameOf v = some name then (g.deps v).filter (map.nameOf · == some name) else [] := by
  rw [layerPart, deps_induced]
  simp only [beq_iff_eq]

/-- The cycles in a layer are the cycles of the graph that has only the edges between its files, in
the same order. There are some exactly if a cycle stays in the layer. -/
theorem cyclesInLayer_eq_cycles (project : Project) (map : LayerMap) (name : String) :
    ((build project).layerPart map name).files = (build project).files ∧
    (∀ v, ((build project).layerPart map name).deps v =
      if map.nameOf v = some name then
        ((build project).deps v).filter (map.nameOf · == some name) else []) ∧
    (build project).cyclesInLayer map name = ((build project).layerPart map name).cycles ∧
    ((build project).cyclesInLayer map name ≠ [] ↔
      ∃ nodes, (build project).IsCycle nodes ∧ ∀ v ∈ nodes, map.nameOf v = some name) := by
  have hwf := build_wellFormed project
  have hsome := CycleWalk.walk_ne_nil_iff hwf fun v => map.nameOf v == some name
  simp only [beq_iff_eq] at hsome
  exact ⟨rfl, deps_layerPart _ map name, CycleWalk.walk_induced hwf _, hsome⟩

/-- An example: a circle of imports within a layer, and one through two layers. -/
def annex : Project :=
  { files := ["core/a.go", "base/x.go", "core/b.go", "core/c.go"].map .ofPath
    imports :=
      [("core/a.go", [.ofSpecifier "base/x.go", .ofSpecifier "core/b.go"]),
        ("base/x.go", [.ofSpecifier "core/a.go"]),
        ("core/b.go", [.ofSpecifier "base/x.go", .ofSpecifier "core/c.go"]),
        ("core/c.go", [.ofSpecifier "core/b.go"])] }

/-- The layers of `annex`. -/
def annexLayers : LayerMap :=
  { layers := [{ name := "core", pattern := "core/**" }, { name := "base", pattern := "base/**" }]
    positions := #[some 0, some 1, some 0, some 0] }

theorem cyclesInLayer_eq_cycles_annex :
    (build annex).cycles.map Cycle.nodes = [[0, 1], [2, 3]] ∧
    (build annex).cyclesInLayer annexLayers "core" =
      ((build annex).layerPart annexLayers "core").cycles ∧
    (∃ nodes, (build annex).IsCycle nodes ∧
      ∀ v ∈ nodes, annexLayers.nameOf v = some "core") ∧
    ¬∃ nodes, (build annex).IsCycle nodes ∧ ∀ v ∈ nodes, annexLayers.nameOf v = some "base" := by
  obtain ⟨_, _, hcycles, hsome⟩ := cyclesInLayer_eq_cycles annex annexLayers "core"
  obtain ⟨_, _, _, hnone⟩ := cyclesInLayer_eq_cycles annex annexLayers "base"
  refine ⟨by decide +kernel, hcycles, hsome.1 (by decide +kernel), ?_⟩
  exact hnone.not.1 (by decide +kernel)

end Graph

end LayerLint
