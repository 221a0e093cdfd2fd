import LayerLint.Figure.Basic
import LayerLint.Proofs.Graph.Build

/-!
# Drawn nodes and edges

A node has a name in a figure if it is one of the nodes to draw, and the edges drawn from a node
lead to the drawn ones among its dependencies.
-/

namespace LayerLint.Figure

variable {g : Graph} {map : LayerMap} {options : DrawOptions} {u v : Nat}

/-! ## Nodes -/

theorem drawnNodes_sublist : (drawnNodes g map options).Sublist g.nodes := by
  have hlayer : (layerNodes g map options).Sublist g.nodes := List.filter_sublist
  simp only [drawnNodes]
  split
  · exact hlayer
  · exact hlayer
  · exact List.filter_sublist.trans hlayer

theorem lt_of_mem_drawnNodes (h : v ∈ drawnNodes g map options) : v < g.size :=
  List.mem_range.1 (drawnNodes_sublist.subset h)

/-- Nodes are drawn in the order of the graph. -/
theorem drawnNodes_pairwise : (drawnNodes g map options).Pairwise (· < ·) :=
  List.pairwise_lt_range.sublist drawnNodes_sublist

theorem drawnNodes_nodup : (drawnNodes g map options).Nodup :=
  drawnNodes_pairwise.imp Nat.ne_of_lt

theorem drawnNodes_eq_nodes (hlayer : options.onlyLayer = none)
    (hdepth : options.maxDepth.getD 0 = 0) : drawnNodes g map options = g.nodes := by
  have hnodes : layerNodes g map options = g.nodes := by simp [layerNodes, hlayer]
  cases hsteps : options.maxDepth with
  | none => simp [drawnNodes, hsteps, hnodes]
  | some steps =>
      obtain rfl : steps = 0 := by simpa [hsteps] using hdepth
      simp [drawnNodes, hsteps, hnodes]

/-! ## Places -/

/-- Writes the places of some nodes into a table. -/
def place (slots : Array (Option Nat)) (entries : List (Nat × Nat)) : Array (Option Nat) :=
  entries.foldl (fun slots entry => slots.setIfInBounds entry.1 (some entry.2)) slots

theorem getElem?_place_other {entries : List (Nat × Nat)} (h : v ∉ entries.map Prod.fst)
    (slots : Array (Option Nat)) : (place slots entries)[v]? = slots[v]? := by
  induction entries generalizing slots with
  | nil => rfl
  | cons entry entries ih =>
      rw [List.map_cons, List.mem_cons, not_or] at h
      exact (ih h.2 _).trans (Array.getElem?_setIfInBounds_ne (Ne.symm h.1))

theorem getElem?_place {entries : List (Nat × Nat)} (hnodup : (entries.map Prod.fst).Nodup)
    {slot : Nat} (hentry : (v, slot) ∈ entries) {slots : Array (Option Nat)} (hv : v < slots.size) :
    (place slots entries)[v]? = some (some slot) := by
  induction entries generalizing slots with
  | nil => cases hentry
  | cons entry entries ih =>
      obtain ⟨hfresh, hrest⟩ := List.nodup_cons.1 hnodup
      rcases List.mem_cons.1 hentry with rfl | hentry
      · exact (getElem?_place_other hfresh _).trans (Array.getElem?_setIfInBounds_self_of_lt hv)
      · exact ih hrest hentry (by rwa [Array.size_setIfInBounds])

theorem slots_draw : (draw g map options).slots =
    place (Array.replicate g.size none) (drawnNodes g map options).zipIdx :=
  rfl

/-- A node is named by its place among those drawn. -/
theorem id?_drawn {i : Nat} (h : (drawnNodes g map options)[i]? = some v) :
    (draw g map options).id? v = some s!"n{i}" := by
  have hlt : v < (Array.replicate g.size (none : Option Nat)).size := by
    rw [Array.size_replicate]
    exact lt_of_mem_drawnNodes (List.mem_of_getElem? h)
  have hslot : (draw g map options).slots[v]? = some (some i) := by
    rw [slots_draw]
    refine getElem?_place ?_ (List.mem_zipIdx_iff_getElem?.2 h) hlt
    rw [List.zipIdx_map_fst]
    exact drawnNodes_nodup
  rw [id?, hslot]
  rfl

theorem id?_undrawn (h : v ∉ drawnNodes g map options) : (draw g map options).id? v = none := by
  rw [id?, slots_draw, getElem?_place_other (by rwa [List.zipIdx_map_fst]),
    Array.getElem?_replicate]
  split <;> rfl

@[simp]
theorem isSome_id?_iff :
    ((draw g map options).id? v).isSome = true ↔ v ∈ drawnNodes g map options := by
  constructor
  · intro hsome
    by_contra hnot
    rw [id?_undrawn hnot] at hsome
    cases hsome
  · intro hmem
    obtain ⟨i, hi⟩ := List.mem_iff_getElem?.1 hmem
    rw [id?_drawn hi]
    rfl

/-! ## Edges -/

/-- The edges drawn from a node are its dependencies among the drawn nodes. -/
theorem edgesFrom_eq : (draw g map options).edgesFrom u =
    ((g.deps u).filter (· ∈ drawnNodes g map options)).map fun v =>
      (v, (draw g map options).edgeKind u v) := by
  rw [edgesFrom]
  refine congrArg _ (List.filter_congr fun v _ => ?_)
  rw [Bool.eq_iff_iff, isSome_id?_iff, decide_eq_true_iff]

@[simp]
theorem mem_edgesFrom_iff {kind : EdgeKind} :
    (v, kind) ∈ (draw g map options).edgesFrom u ↔
      v ∈ g.deps u ∧ v ∈ drawnNodes g map options ∧ (draw g map options).edgeKind u v = kind := by
  simp only [edgesFrom_eq, List.mem_map, List.mem_filter, decide_eq_true_iff, Prod.mk.injEq]
  constructor
  · rintro ⟨_, ⟨hdep, hdrawn⟩, rfl, hkind⟩
    exact ⟨hdep, hdrawn, hkind⟩
  · rintro ⟨hdep, hdrawn, hkind⟩
    exact ⟨v, ⟨hdep, hdrawn⟩, rfl, hkind⟩

theorem edgesFrom_of_all (h : g.WellFormed) (hall : drawnNodes g map options = g.nodes) :
    (draw g map options).edgesFrom u =
      (g.deps u).map fun v => (v, (draw g map options).edgeKind u v) := by
  have hkeep : ∀ v ∈ g.deps u, decide (v ∈ drawnNodes g map options) = true := by
    intro v hv
    rw [hall, decide_eq_true_iff]
    exact List.mem_range.2 (h.deps_lt hv)
  rw [edgesFrom_eq, List.filter_eq_self.2 hkeep]

theorem edgeKind_without_cycles (hcycles : options.showCycles = false)
    (hviolations : options.highlightViolations = true) :
    (draw g map options).edgeKind u v = if map.isViolation u v then .violation else .normal := by
  simp [edgeKind, draw, hcycles, hviolations]

end LayerLint.Figure
