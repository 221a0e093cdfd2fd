import Mathlib.Data.List.Range
import LayerLint.Graph.Component
import LayerLint.Proofs.Graph.Build
import LayerLint.Proofs.Graph.Dependence
import LayerLint.Proofs.Graph.Reach

/-!
# Components as classes

The components are the classes of two or more nodes that reach each other. Each class is listed
once, at the least of its nodes, which leads it; so the components come in the order of their first
nodes.
-/

namespace LayerLint.Graph

variable {g : Graph} {u v w : Nat}

/-! ## Edges by source and by target -/

/-- A step that adds the second part of a pair to the list at the first part. -/
structure AddsPairs (step : Array (List Nat) → Nat × Nat → Array (List Nat)) : Prop where
  size_eq : ∀ lists pair, (step lists pair).size = lists.size
  mem_iff : ∀ lists pair (u w : Nat), w ∈ (step lists pair)[u]?.getD [] ↔
    w ∈ lists[u]?.getD [] ∨ (u, w) = pair ∧ u < lists.size

section AddsPairs

variable {step : Array (List Nat) → Nat × Nat → Array (List Nat)}

theorem AddsPairs.mem_foldl (h : AddsPairs step) (pairs : List (Nat × Nat))
    (lists : Array (List Nat)) :
    w ∈ (pairs.foldl step lists)[u]?.getD [] ↔
      w ∈ lists[u]?.getD [] ∨ (u, w) ∈ pairs ∧ u < lists.size := by
  induction pairs generalizing lists with
  | nil => simp
  | cons pair pairs ih =>
      rw [List.foldl_cons, ih, h.mem_iff, h.size_eq, List.mem_cons]
      tauto

/-- Lists made of pairs hold the second parts of the pairs at the first parts. -/
theorem AddsPairs.mem_foldl_replicate (h : AddsPairs step) {pairs : List (Nat × Nat)} {size : Nat}
    (hlt : (u, w) ∈ pairs → u < size) :
    w ∈ (pairs.foldl step (Array.replicate size []))[u]?.getD [] ↔ (u, w) ∈ pairs := by
  have hempty : (Array.replicate size ([] : List Nat))[u]?.getD [] = [] := by
    rw [Array.getElem?_replicate]
    split <;> rfl
  rw [h.mem_foldl, hempty, Array.size_replicate]
  constructor
  · rintro (hw | ⟨hw, _⟩)
    · cases hw
    · exact hw
  · intro hw
    exact Or.inr ⟨hw, hlt hw⟩

end AddsPairs

theorem addsPairs_consAt : AddsPairs fun lists pair => consAt lists pair.1 pair.2 := by
  refine ⟨fun lists pair => by simp [consAt], fun lists pair u w => ?_⟩
  simp only [consAt, Array.getElem?_modify, Prod.ext_iff]
  by_cases hu : pair.1 = u
  · subst hu
    by_cases hlt : pair.1 < lists.size
    · simp [hlt, or_comm]
    · simp [hlt]
  · simp [hu, Ne.symm hu]

theorem WellFormed.mem_targets (h : g.WellFormed) :
    w ∈ g.targets[u]?.getD [] ↔ g.DependsOn u w := by
  have hedge : (u, w) ∈ g.edges.toList ↔ g.DependsOn u w := by
    rw [DependsOn, ← h.mem_edges, Array.mem_toList_iff]
  rw [targets, ← Array.foldl_toList]
  exact (addsPairs_consAt.mem_foldl_replicate fun hw => h.source_lt (hedge.1 hw)).trans hedge

theorem WellFormed.mem_sources (h : g.WellFormed) :
    w ∈ g.sources[u]?.getD [] ↔ g.DependsOn w u := by
  have hfold : g.sources = (g.edges.toList.map Prod.swap).foldl
      (fun lists pair => consAt lists pair.1 pair.2) (Array.replicate g.size []) := by
    rw [sources, ← Array.foldl_toList, List.foldl_map]
    rfl
  have hswap : (u, w) ∈ g.edges.toList.map Prod.swap ↔ g.DependsOn w u := by
    rw [DependsOn, ← h.mem_edges, ← Array.mem_toList_iff]
    simp
  rw [hfold]
  exact (addsPairs_consAt.mem_foldl_replicate fun hw => h.deps_lt (hswap.1 hw)).trans hswap

/-! ## The class of a node -/

/-- The nodes that reach a node and are reached from it. -/
def group (g : Graph) (node : Nat) : List Nat :=
  mutuals g.size g.targets g.sources node

theorem WellFormed.reaches_lt (h : g.WellFormed) (hu : u < g.size) (huv : g.Reaches u v) :
    v < g.size := by
  induction huv with
  | refl => exact hu
  | tail _ hdep _ => exact h.deps_lt hdep

theorem WellFormed.mem_group (h : g.WellFormed) (hu : u < g.size) :
    v ∈ g.group u ↔ g.Reaches u v ∧ g.Reaches v u := by
  have hafter : (reachable g.size (fun v => g.targets[v]?.getD []) u)[v]? = some true ↔
      g.Reaches u v := by
    rw [reachable_iff (fun x y hy => h.deps_lt (h.mem_targets.1 hy)) hu]
    simp only [h.mem_targets]
    rfl
  have hbefore : (reachable g.size (fun v => g.sources[v]?.getD []) u)[v]? = some true ↔
      g.Reaches v u := by
    rw [reachable_iff (fun x y hy => h.source_lt (h.mem_sources.1 hy)) hu]
    simp only [h.mem_sources]
    exact Relation.reflTransGen_swap
  simp only [group, mutuals, List.mem_filter, List.mem_range, Bool.and_eq_true,
    Option.getD_eq_iff, Bool.false_eq_true, and_false, or_false, hafter, hbefore]
  exact ⟨And.right, fun hreach => ⟨h.reaches_lt hu hreach.1, hreach⟩⟩

theorem WellFormed.mem_group_self (h : g.WellFormed) (hu : u < g.size) : u ∈ g.group u :=
  (h.mem_group hu).2 ⟨.refl, .refl⟩

theorem group_pairwise (g : Graph) (u : Nat) : (g.group u).Pairwise (· < ·) :=
  List.Pairwise.filter _ List.pairwise_lt_range

theorem group_nodup (g : Graph) (u : Nat) : (g.group u).Nodup :=
  (g.group_pairwise u).imp Nat.ne_of_lt

/-- Nodes of one class have one class. -/
theorem WellFormed.group_eq (h : g.WellFormed) (hu : u < g.size) (hv : v ∈ g.group u) :
    g.group v = g.group u := by
  obtain ⟨huv, hvu⟩ := (h.mem_group hu).1 hv
  have hlt := h.reaches_lt hu huv
  have hperm : (g.group v).Perm (g.group u) := by
    refine (List.perm_ext_iff_of_nodup (g.group_nodup v) (g.group_nodup u)).2 fun w => ?_
    rw [h.mem_group hlt, h.mem_group hu]
    constructor
    · rintro ⟨hvw, hwv⟩
      exact ⟨huv.trans hvw, hwv.trans hvu⟩
    · rintro ⟨huw, hwu⟩
      exact ⟨hvu.trans huw, hwu.trans huv⟩
  refine hperm.eq_of_pairwise ?_ (g.group_pairwise v) (g.group_pairwise u)
  intro a b _ _ hab hba
  exact absurd hab (Nat.lt_asymm hba)

/-! ## Leaders -/

/-- A node leads its class: it is the first of two or more. -/
def leads (g : Graph) (node : Nat) : Bool :=
  decide (1 < (g.group node).length) && (g.group node).head? == some node

theorem leads_iff : g.leads u = true ↔ 1 < (g.group u).length ∧ (g.group u).head? = some u := by
  simp [leads]

/-- Every class of two or more nodes is led by one of its nodes, not after any other. -/
theorem WellFormed.exists_leads (h : g.WellFormed) (hu : u < g.size)
    (hlength : 1 < (g.group u).length) :
    ∃ l ≤ u, l < g.size ∧ g.leads l = true ∧ g.group l = g.group u := by
  cases hgroup : g.group u with
  | nil => simp [hgroup] at hlength
  | cons l rest =>
      have hl : l ∈ g.group u := by simp [hgroup]
      have hsame : g.group l = g.group u := h.group_eq hu hl
      refine ⟨l, ?_, h.reaches_lt hu ((h.mem_group hu).1 hl).1, ?_, hgroup ▸ hsame⟩
      · have hself := h.mem_group_self hu
        have hpairwise := g.group_pairwise u
        rw [hgroup] at hself hpairwise
        rcases List.mem_cons.1 hself with rfl | hrest
        · exact Nat.le_refl _
        · exact Nat.le_of_lt ((List.pairwise_cons.1 hpairwise).1 u hrest)
      · rw [leads_iff, hsame]
        exact ⟨hlength, by simp [hgroup]⟩

theorem WellFormed.leads_unique (h : g.WellFormed) (hu : u < g.size) (hv : v < g.size)
    (hleadu : g.leads u = true) (hleadv : g.leads v = true) (hwu : w ∈ g.group u)
    (hwv : w ∈ g.group v) : u = v := by
  have hhead := (leads_iff.1 hleadu).2
  rw [← h.group_eq hu hwu, h.group_eq hv hwv, (leads_iff.1 hleadv).2] at hhead
  exact (Option.some.inj hhead).symm

/-- A node of a class of two or more comes after the leader, unless it is the leader itself. -/
theorem WellFormed.exists_leads_lt_iff (h : g.WellFormed) (hu : u < g.size)
    (hlength : 1 < (g.group u).length) :
    (∃ l < u, g.leads l = true ∧ u ∈ g.group l) ↔ ¬g.leads u = true := by
  constructor
  · rintro ⟨l, hl, hleadl, hmem⟩ hlead
    exact Nat.ne_of_lt hl
      (h.leads_unique (Nat.lt_trans hl hu) hu hleadl hlead hmem (h.mem_group_self hu))
  · intro hlead
    obtain ⟨l, hle, _, hleadl, hsame⟩ := h.exists_leads hu hlength
    have hne : l ≠ u := by
      rintro rfl
      exact hlead hleadl
    exact ⟨l, Nat.lt_of_le_of_ne hle hne, hleadl, hsame ▸ h.mem_group_self hu⟩

/-! ## The pass over the nodes -/

/-- The pass keeps, in reverse, the classes of the leaders it has come by. -/
theorem WellFormed.groups_eq (h : g.WellFormed) :
    g.groups = (g.nodes.filter g.leads).map g.group := by
  have hpass : g.nodes.foldl (fun groups node =>
      if groups.any (·.contains node) then groups
      else if (g.group node).length > 1 then g.group node :: groups else groups) [] =
      ((g.nodes.filter g.leads).map g.group).reverse := by
    refine foldl_range_induct
      (P := fun k groups => groups = (((List.range k).filter g.leads).map g.group).reverse)
      rfl ?_
    intro node groups hnode hgroups
    have hany : groups.any (·.contains node) = true ↔
        ∃ l < node, g.leads l = true ∧ node ∈ g.group l := by
      simp [hgroups]
    rw [List.range_succ, List.filter_append, List.map_append, List.reverse_append, ← hgroups]
    by_cases hlength : 1 < (g.group node).length
    · rw [h.exists_leads_lt_iff hnode hlength] at hany
      by_cases hlead : g.leads node = true
      · rw [if_neg fun htaken => hany.1 htaken hlead, if_pos hlength]
        simp [hlead]
      · rw [if_pos (hany.2 hlead)]
        simp [hlead]
    · have hlead : ¬g.leads node = true := fun hlead => hlength (leads_iff.1 hlead).1
      rw [if_neg hlength, ite_self]
      simp [hlead]
  have hgroups : g.groups = (g.nodes.foldl (fun groups node =>
      if groups.any (·.contains node) then groups
      else if (g.group node).length > 1 then g.group node :: groups else groups) []).reverse := rfl
  rw [hgroups, hpass, List.reverse_reverse]

/-- The component of a leader. -/
def componentOf (g : Graph) (leader : Nat) : Component :=
  { nodes := g.group leader, files := (g.group leader).map g.path }

theorem WellFormed.components_eq (h : g.WellFormed) :
    g.components = (g.nodes.filter g.leads).map g.componentOf := by
  rw [components, h.groups_eq, List.map_map]
  rfl

theorem WellFormed.mem_components (h : g.WellFormed) {c : Component} :
    c ∈ g.components ↔ ∃ l < g.size, g.leads l = true ∧ g.componentOf l = c := by
  simp [h.components_eq, nodes, and_assoc]

/-! ## Components -/

theorem WellFormed.lt_of_reaches (h : g.WellFormed) (hne : u ≠ v) (huv : g.Reaches u v) :
    u < g.size := by
  rcases Relation.ReflTransGen.cases_head huv with rfl | ⟨w, hdep, _⟩
  · exact absurd rfl hne
  · exact h.source_lt hdep

theorem WellFormed.common_component (h : g.WellFormed) (hne : u ≠ v) :
    (∃ c ∈ g.components, u ∈ c.nodes ∧ v ∈ c.nodes) ↔ g.Reaches u v ∧ g.Reaches v u := by
  constructor
  · rintro ⟨c, hc, hu, hv⟩
    obtain ⟨l, hl, _, rfl⟩ := h.mem_components.1 hc
    obtain ⟨hlu, hul⟩ := (h.mem_group hl).1 hu
    obtain ⟨hlv, hvl⟩ := (h.mem_group hl).1 hv
    exact ⟨hul.trans hlv, hvl.trans hlu⟩
  · rintro ⟨huv, hvu⟩
    have hu := h.lt_of_reaches hne huv
    have hself := h.mem_group_self hu
    have hother := (h.mem_group hu).2 ⟨huv, hvu⟩
    have hlength : 1 < (g.group u).length := by
      match hgroup : g.group u with
      | [] => simp [hgroup] at hself
      | [a] =>
          rw [hgroup, List.mem_singleton] at hself hother
          exact absurd (hself.trans hother.symm) hne
      | a :: b :: rest => simp
    obtain ⟨l, _, hl, hlead, hsame⟩ := h.exists_leads hu hlength
    refine ⟨g.componentOf l, h.mem_components.2 ⟨l, hl, hlead, rfl⟩, ?_⟩
    simp only [componentOf, hsame]
    exact ⟨hself, hother⟩

theorem WellFormed.component_shape (h : g.WellFormed) {c : Component} (hc : c ∈ g.components) :
    2 ≤ c.nodes.length ∧ c.nodes.Pairwise (· < ·) ∧ c.files = c.nodes.map g.path := by
  obtain ⟨l, _, hlead, rfl⟩ := h.mem_components.1 hc
  exact ⟨(leads_iff.1 hlead).1, g.group_pairwise l, rfl⟩

theorem WellFormed.components_pairwise (h : g.WellFormed) :
    g.components.Pairwise fun c d =>
      c.nodes.Disjoint d.nodes ∧ ∀ x ∈ c.nodes.head?, ∀ y ∈ d.nodes.head?, x < y := by
  rw [h.components_eq, List.pairwise_map]
  have hleaders : (g.nodes.filter g.leads).Pairwise (· < ·) :=
    List.Pairwise.filter _ List.pairwise_lt_range
  refine hleaders.imp_of_mem ?_
  intro l m hl hm hlm
  simp only [nodes, List.mem_filter, List.mem_range] at hl hm
  refine ⟨?_, ?_⟩
  · intro w hwl hwm
    exact Nat.ne_of_lt hlm (h.leads_unique hl.1 hm.1 hl.2 hm.2 hwl hwm)
  · intro x hx y hy
    rw [componentOf, (leads_iff.1 hl.2).2, Option.mem_some_iff] at hx
    rw [componentOf, (leads_iff.1 hm.2).2, Option.mem_some_iff] at hy
    rwa [← hx, ← hy]

/-- The nodes of the components are those that get back to themselves. -/
theorem WellFormed.mem_component_iff (h : g.WellFormed) :
    (∃ c ∈ g.components, v ∈ c.nodes) ↔ Relation.TransGen g.DependsOn v v := by
  constructor
  · rintro ⟨c, hc, hv⟩
    obtain ⟨hlength, hpairwise, _⟩ := h.component_shape hc
    obtain ⟨w, hw, hne⟩ : ∃ w ∈ c.nodes, w ≠ v := by
      match hnodes : c.nodes with
      | [] | [_] => simp [hnodes] at hlength
      | a :: b :: rest =>
          rw [hnodes] at hpairwise
          have hab : a < b := (List.pairwise_cons.1 hpairwise).1 b List.mem_cons_self
          by_cases ha : a = v
          · exact ⟨b, by simp, by omega⟩
          · exact ⟨a, by simp, ha⟩
    obtain ⟨hwv, hvw⟩ := (h.common_component hne).1 ⟨c, hc, hw, hv⟩
    rcases Relation.reflTransGen_iff_eq_or_transGen.1 hvw with heq | hvw
    · exact absurd heq hne
    · exact hvw.trans_left hwv
  · intro hround
    obtain ⟨w, hdep, hback⟩ := Relation.TransGen.head'_iff.1 hround
    have hne : v ≠ w := (h.deps_ne hdep).symm
    obtain ⟨c, hc, hv, _⟩ := (h.common_component hne).2 ⟨.single hdep, hback⟩
    exact ⟨c, hc, hv⟩

theorem WellFormed.exists_mem_component (h : g.WellFormed) {c : Component}
    (hc : c ∈ g.components) : ∃ u, u ∈ c.nodes :=
  List.exists_mem_of_length_pos (Nat.lt_of_lt_of_le Nat.two_pos (h.component_shape hc).1)

theorem WellFormed.mem_of_mutual (h : g.WellFormed) {c : Component} (hc : c ∈ g.components)
    (hu : u ∈ c.nodes) (huv : g.Reaches u v) (hvu : g.Reaches v u) : v ∈ c.nodes := by
  obtain ⟨l, hl, _, rfl⟩ := h.mem_components.1 hc
  obtain ⟨hlu, hul⟩ := (h.mem_group hl).1 hu
  exact (h.mem_group hl).2 ⟨hlu.trans huv, hvu.trans hul⟩

theorem WellFormed.component_unique (h : g.WellFormed) {c d : Component} (hc : c ∈ g.components)
    (hd : d ∈ g.components) (huc : u ∈ c.nodes) (hud : u ∈ d.nodes) : c = d := by
  obtain ⟨l, hl, hleadl, rfl⟩ := h.mem_components.1 hc
  obtain ⟨m, hm, hleadm, rfl⟩ := h.mem_components.1 hd
  rw [h.leads_unique hl hm hleadl hleadm huc hud]

/-! ## Flags of nodes on cycles -/

theorem cyclicNodes_eq (g : Graph) :
    g.cyclicNodes = (g.components.flatMap Component.nodes).foldl
      (fun flags v => flags.setIfInBounds v true) (Array.replicate g.size false) := by
  rw [cyclicNodes, List.foldl_flatMap]

theorem size_cyclicNodes (g : Graph) : g.cyclicNodes.size = g.size := by
  rw [cyclicNodes_eq, Marks.size_foldl_set, Array.size_replicate]

theorem WellFormed.cyclicNodes_iff (h : g.WellFormed) :
    g.cyclicNodes[v]? = some true ↔ ∃ c ∈ g.components, v ∈ c.nodes := by
  have hlt : (∃ c ∈ g.components, v ∈ c.nodes) → v < g.size := by
    rintro ⟨c, hc, hv⟩
    obtain ⟨l, hl, _, rfl⟩ := h.mem_components.1 hc
    exact h.reaches_lt hl ((h.mem_group hl).1 hv).1
  rw [cyclicNodes_eq, Marks.foldl_set_eq_true, List.mem_flatMap, Array.size_replicate]
  constructor
  · rintro (hv | ⟨hv, _⟩)
    · exact absurd hv (Marks.replicate_ne_true _ _)
    · exact hv
  · intro hv
    exact Or.inr ⟨hv, hlt hv⟩

theorem WellFormed.flag_iff (h : g.WellFormed) :
    g.cyclicNodes[v]? = some true ↔ Relation.TransGen g.DependsOn v v :=
  h.cyclicNodes_iff.trans h.mem_component_iff

/-! ## Components of a project -/

/-- The components are the classes of two or more nodes that reach each other, each once and in
order; the flagged nodes are those on a way back to themselves. -/
theorem components_are_classes (project : Project) :
    (∀ u v, u ≠ v →
      ((∃ c ∈ (build project).components, u ∈ c.nodes ∧ v ∈ c.nodes) ↔
        (build project).Reaches u v ∧ (build project).Reaches v u)) ∧
    (∀ c ∈ (build project).components,
      2 ≤ c.nodes.length ∧ c.nodes.Pairwise (· < ·) ∧
        c.files = c.nodes.map (build project).path) ∧
    (build project).components.Pairwise (fun c d =>
      c.nodes.Disjoint d.nodes ∧ ∀ x ∈ c.nodes.head?, ∀ y ∈ d.nodes.head?, x < y) ∧
    (build project).cyclicNodes.size = (build project).size ∧
    ∀ v, (build project).cyclicNodes[v]? = some true ↔
      Relation.TransGen (build project).DependsOn v v := by
  have h := build_wellFormed project
  refine ⟨fun u v hne => h.common_component hne, fun c hc => h.component_shape hc,
    h.components_pairwise, size_cyclicNodes _, fun v => ?_⟩
  rw [h.cyclicNodes_iff, h.mem_component_iff]

theorem components_are_classes_knot :
    1 ≠ 3 ∧ ∃ c ∈ (build knot).components,
      (1 ∈ c.nodes ∧ 3 ∈ c.nodes) ∧ 2 ≤ c.nodes.length ∧ c.nodes.Pairwise (· < ·) := by
  have hto : (build knot).Reaches 1 3 :=
    .tail (.single (by decide +kernel : (build knot).DependsOn 1 2)) (by decide +kernel)
  have hback : (build knot).Reaches 3 1 :=
    .tail (.single (by decide +kernel : (build knot).DependsOn 3 2)) (by decide +kernel)
  obtain ⟨hcommon, hshape, _⟩ := components_are_classes knot
  obtain ⟨c, hc, hmem⟩ := (hcommon 1 3 (by decide)).2 ⟨hto, hback⟩
  exact ⟨by decide, c, hc, hmem, (hshape c hc).1, (hshape c hc).2.1⟩

end LayerLint.Graph
