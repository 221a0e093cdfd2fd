import Mathlib.Data.List.Perm.Subperm
import Mathlib.Logic.Function.Basic
import LayerLint.Proofs.DepthWalk.Answer

/-!
# Depths as lengths of trails

A table grows by one depth at a time, which builds on a depth that was known before. So a known
depth is the length of a chain of imports along files finished one before the other. The chain meets
none of them twice; only its last file may be one that it met before.
-/

namespace LayerLint

namespace Graph

/-- A chain of so many imports from a node, on which no node comes twice but perhaps the last. -/
structure IsTrail (g : Graph) (node length : Nat) (nodes : List Nat) : Prop where
  head?_eq : nodes.head? = some node
  length_eq : nodes.length = length + 1
  chain : nodes.IsChain g.DependsOn
  nodup : (nodes.take length).Nodup

variable {g : Graph} {u v k : Nat} {nodes : List Nat}

theorem isTrail_singleton (g : Graph) (v : Nat) : g.IsTrail v 0 [v] :=
  ⟨rfl, rfl, List.isChain_singleton v, List.nodup_nil⟩

theorem IsTrail.cons (h : g.IsTrail v k nodes) (huv : g.DependsOn u v)
    (hnew : u ∉ nodes.take k) : g.IsTrail u (k + 1) (u :: nodes) := by
  refine ⟨rfl, by simp [h.length_eq], h.chain.cons ?_, ?_⟩
  · intro w hw
    rw [h.head?_eq, Option.mem_some_iff] at hw
    exact hw ▸ huv
  · rw [List.take_succ_cons]
    exact List.nodup_cons.2 ⟨hnew, h.nodup⟩

theorem WellFormed.lt_of_mem_dropLast (hwf : g.WellFormed) (hchain : nodes.IsChain g.DependsOn)
    (hv : v ∈ nodes.dropLast) : v < g.size := by
  induction nodes with
  | nil => cases hv
  | cons first rest ih =>
      cases rest with
      | nil => cases hv
      | cons second rest =>
          obtain ⟨hdep, hrest⟩ := List.isChain_cons_cons.1 hchain
          rw [List.dropLast_cons_cons] at hv
          rcases List.mem_cons.1 hv with rfl | hv
          · exact hwf.source_lt hdep
          · exact ih hrest hv

/-- No trail is longer than there are nodes. -/
theorem IsTrail.le_size (hwf : g.WellFormed) (h : g.IsTrail v k nodes) : k ≤ g.size := by
  have htake : nodes.take k = nodes.dropLast := by
    rw [List.dropLast_eq_take, h.length_eq, Nat.add_sub_cancel]
  have hsubset : nodes.take k ⊆ List.range g.size := by
    intro x hx
    rw [htake] at hx
    exact List.mem_range.2 (hwf.lt_of_mem_dropLast h.chain hx)
  have hlength := (h.nodup.subperm hsubset).length_le
  rw [List.length_take, h.length_eq, List.length_range] at hlength
  omega

end Graph

namespace DepthTable

variable {g : Graph} {table : DepthTable} {v d : Nat}

/-! ## How a table grows -/

/-- The depths of a table to which one fitting depth was added after the other. -/
inductive Grown (g : Graph) : (Nat → Option Nat) → Prop
  | empty : Grown g fun _ => none
  | add {table : DepthTable} {node d : Nat} (h : Grown g table.depth?)
      (hunknown : table.depth? node = none) (hfits : Fits g table node d) :
      Grown g (Function.update table.depth? node (some d))

theorem grown_empty (g : Graph) : Grown g (empty g).depth? := by
  rw [funext (depth?_empty g)]
  exact .empty

theorem Grown.move {w w' : Walk} (hw : Consistent g w) (h : Grown g w.table.depth?)
    (hmove : Move g w w') : Grown g w'.table.depth? := by
  cases hmove with
  | @finish node deepest outer hframes =>
      have hmem : node ∈ w.stack := by simp [Walk.stack, hframes]
      have hweighed := hw.weighed
      rw [hframes] at hweighed
      have hupdate : (w.finish node (depthOver g node deepest) outer).table.depth? =
          Function.update w.table.depth? node (some (depthOver g node deepest)) := by
        funext v
        rw [depth?_finish (hw.aligned.size_known ▸ hw.aligned.lt_of_mem hmem),
          Function.update_apply]
      rw [hupdate]
      exact h.add (hw.aligned.unknown_of_mem node hmem) hweighed.1.fits
  | learn => exact h
  | pass => exact h
  | enter => exact h

theorem Grown.depth (hg : g.WellFormed) (hs : Settled g table) (h : Grown g table.depth?)
    (node : Nat) : Grown g (DepthTable.depth g table node).2.depth? := by
  by_cases hnode : node < g.size
  · cases hknown : table.depth? node with
    | some d =>
        rw [depth_known hknown]
        exact h
    | none =>
        rw [depth_unknown hknown]
        refine (run_induct (P := fun w => Consistent g w ∧ Grown g w.table.depth?) ?_ _
          ⟨hs.enter hnode hknown, h⟩).2
        exact fun hw hmove => ⟨hw.1.move hg hmove, hw.2.move hw.1 hmove⟩
  · rw [hs.table_depth_of_ge hg (Nat.le_of_not_lt hnode)]
    exact h

theorem grown_after (hg : g.WellFormed) (questions : List Question) :
    Grown g (after g questions).depth? := by
  refine (after_induct (P := fun table => Settled g table ∧ Grown g table.depth?)
    ⟨settled_empty g, grown_empty g⟩ ?_ questions).2
  exact fun table node h => ⟨(h.1.depth hg node).1, h.2.depth hg h.1 node⟩

/-! ## Trails -/

/-- A trail on which every node but the last is known. -/
def HasKnownTrail (g : Graph) (known : Nat → Option Nat) (v d : Nat) : Prop :=
  ∃ nodes, g.IsTrail v d nodes ∧ ∀ x ∈ nodes.take d, known x ≠ none

theorem hasKnownTrail_zero (g : Graph) (known : Nat → Option Nat) (v : Nat) :
    HasKnownTrail g known v 0 :=
  ⟨[v], g.isTrail_singleton v, by simp⟩

theorem update_ne_none {known : Nat → Option Nat} {node x : Nat} (d : Nat) :
    Function.update known node (some d) x ≠ none ↔ x = node ∨ known x ≠ none := by
  rw [Function.update_apply]
  by_cases hx : x = node <;> simp [hx]

/-- A new depth builds on a known one, whose trail cannot have met the node. -/
theorem Fits.hasKnownTrail {node : Nat} (hfits : Fits g table node d)
    (hunknown : table.depth? node = none)
    (htrails : ∀ x k, table.depth? x = some k → HasKnownTrail g table.depth? x k) :
    HasKnownTrail g (Function.update table.depth? node (some d)) node d := by
  cases d with
  | zero => exact hasKnownTrail_zero g _ node
  | succ k =>
      obtain ⟨x, hx, nodes, htrail, hknown⟩ :
          ∃ x ∈ g.deps node, HasKnownTrail g table.depth? x k := by
        rcases hfits.reached k rfl with rfl | ⟨x, hx, hk⟩
        · obtain ⟨x, hx⟩ := hfits.exists_dependency
          exact ⟨x, hx, hasKnownTrail_zero g _ x⟩
        · exact ⟨x, hx, htrails x k hk⟩
      refine ⟨node :: nodes, htrail.cons hx fun hmem => hknown node hmem hunknown, ?_⟩
      intro y hy
      rw [List.take_succ_cons, List.mem_cons] at hy
      exact (update_ne_none _).2 (hy.imp id (hknown y))

theorem Grown.hasKnownTrail {known : Nat → Option Nat} (h : Grown g known)
    (hv : known v = some d) : HasKnownTrail g known v d := by
  induction h generalizing v d with
  | empty => cases hv
  | @add table node depth _ hunknown hfits ih =>
      by_cases heq : v = node
      · subst heq
        rw [Function.update_self] at hv
        obtain rfl := Option.some.inj hv
        exact hfits.hasKnownTrail hunknown fun x k => ih
      · rw [Function.update_of_ne heq] at hv
        obtain ⟨nodes, htrail, hknown⟩ := ih hv
        exact ⟨nodes, htrail, fun x hx => (update_ne_none _).2 (Or.inr (hknown x hx))⟩

/-! ## What a table tells -/

/-- A depth that a table gives for a node: as the answer about it or its path, or in a report. -/
inductive Gives (g : Graph) (table : DepthTable) (v d : Nat) : Prop
  | node (hdepth : (DepthTable.depth g table v).1 = d)
  | path {path : String} (hnode : g.node? path = some v)
      (hdepth : (depthOf g table path).1 = some d)
  | entry {entry : FileDepth} (hmem : entry ∈ (report g table).1.entries) (hnode : entry.node = v)
      (hdepth : entry.depth = d)

theorem snd_report (g : Graph) (questions : List Question) :
    (report g (after g questions)).2 = after g (questions ++ g.nodes.map .node) := by
  rw [snd_report_eq, askEach, after_append, List.foldl_map]
  rfl

theorem Gives.exists_after (hg : g.WellFormed) {questions : List Question} (hv : v < g.size)
    (h : Gives g (after g questions) v d) :
    ∃ questions', (after g questions').depth? v = some d := by
  have hsettled := settled_after hg questions
  have hanswer : ∀ d, (DepthTable.depth g (after g questions) v).1 = d →
      ∃ questions', (after g questions').depth? v = some d := by
    rintro d rfl
    refine ⟨questions ++ [.node v], ?_⟩
    rw [after_append]
    exact (hsettled.depth hg v).2.2 hv
  cases h with
  | node hdepth => exact hanswer d hdepth
  | path hnode hdepth =>
      rw [depthOf, hnode] at hdepth
      exact hanswer d (Option.some.inj hdepth)
  | @entry entry hmem hnode hdepth =>
      obtain ⟨_, _, _, hentries⟩ := hsettled.report hg
      rw [hentries] at hmem
      obtain ⟨w, hw, rfl⟩ := List.mem_map.1 hmem
      refine ⟨questions ++ g.nodes.map .node, ?_⟩
      rw [← snd_report, ← hnode, ← hdepth]
      exact hsettled.depth?_report hg (List.mem_range.1 hw)

/-- Every depth given, whatever was asked before, is the length of a chain of imports from the file
on which no file comes twice but perhaps the last, so there are at least so many files. -/
theorem depths_have_trails (project : Project) (questions : List Question) {v d : Nat}
    (hv : v < (Graph.build project).size)
    (h : Gives (Graph.build project) (after (Graph.build project) questions) v d) :
    (∃ nodes : List Nat, nodes.head? = some v ∧ nodes.length = d + 1 ∧
      nodes.IsChain (Graph.build project).DependsOn ∧ (nodes.take d).Nodup) ∧
    d ≤ (Graph.build project).size := by
  have hg := Graph.build_wellFormed project
  obtain ⟨questions', hknown⟩ := h.exists_after hg hv
  obtain ⟨nodes, htrail, _⟩ := (grown_after hg questions').hasKnownTrail hknown
  exact ⟨⟨nodes, htrail.head?_eq, htrail.length_eq, htrail.chain, htrail.nodup⟩, htrail.le_size hg⟩

theorem depths_have_trails_knot :
    Gives (Graph.build knot) (after (Graph.build knot) [.path "c.go"]) 3 3 ∧
    (∃ nodes : List Nat, nodes.head? = some 3 ∧ nodes.length = 4 ∧
      nodes.IsChain (Graph.build knot).DependsOn ∧ (nodes.take 3).Nodup) ∧
    3 ≤ (Graph.build knot).size := by
  have hentry : ⟨3, 3, true⟩ ∈
      (report (Graph.build knot) (after (Graph.build knot) [.path "c.go"])).1.entries := by
    decide +kernel
  have hgives : Gives (Graph.build knot) (after (Graph.build knot) [.path "c.go"]) 3 3 :=
    .entry hentry rfl rfl
  exact ⟨hgives, depths_have_trails knot _ (by decide +kernel) hgives⟩

end DepthTable

end LayerLint
