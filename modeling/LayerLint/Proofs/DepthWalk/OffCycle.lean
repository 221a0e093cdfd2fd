import Mathlib.Data.Nat.Dist
import LayerLint.Proofs.DepthWalk.Longest

/-!
# Depths off cycles

The depth of a node on a cycle hangs on the questions asked before. A node on no cycle is one deeper
than the deepest of its dependencies, so what it takes over from the cycles is all that can differ
from one order of questions to another.
-/

namespace LayerLint

/-- A chain of imports leads from a node to another, and no node before its end is on a cycle. -/
def Graph.Meets (g : Graph) (node met : Nat) : Prop :=
  Relation.ReflTransGen
    (fun u v => ¬Relation.TransGen g.DependsOn u u ∧ g.DependsOn u v) node met

theorem Graph.Meets.reaches {g : Graph} {node met : Nat} (h : g.Meets node met) :
    g.Reaches node met :=
  Relation.ReflTransGen.mono (fun _ _ hstep => hstep.2) _ _ h

namespace DepthTable

variable {g : Graph} {table table' : DepthTable} {u v d d' k : Nat}

/-! ## One deeper than the deepest dependency -/

theorem no_way_back (hoff : ¬Relation.TransGen g.DependsOn u u) (huv : g.DependsOn u v) :
    ¬g.Reaches v u :=
  fun hback => hoff (.head' huv hback)

theorem Fits.above_off (h : Fits g table u d) (hoff : ¬Relation.TransGen g.DependsOn u u)
    (huv : g.DependsOn u v) : ∃ e, table.depth? v = some e ∧ e < d :=
  h.above v huv (no_way_back hoff huv)

theorem Fits.reached_off (h : Fits g table u (d + 1))
    (hoff : ¬Relation.TransGen g.DependsOn u u) :
    ∃ v, g.DependsOn u v ∧ table.depth? v = some d := by
  rcases h.reached d rfl with rfl | ⟨v, hv, hknown⟩
  · -- A depth of one: there is a dependency, and it can only have depth zero.
    obtain ⟨v, hv⟩ := h.exists_dependency
    obtain ⟨e, he, hlt⟩ := h.above_off hoff hv
    obtain rfl : e = 0 := by omega
    exact ⟨v, hv, he⟩
  · exact ⟨v, hv, hknown⟩

/-! ## Two tables -/

/-- A node is at most as much deeper in another table as a node on a cycle that it meets. -/
theorem Settled.le_add_of_meets (h : Settled g table) (h' : Settled g table')
    (hmeets : ∀ c e e', g.Meets u c → Relation.TransGen g.DependsOn c c →
      table.depth? c = some e → table'.depth? c = some e' → e ≤ e' + k)
    (hd : table.depth? u = some d) (hd' : table'.depth? u = some d') : d ≤ d' + k := by
  induction d generalizing u d' with
  | zero => exact Nat.zero_le _
  | succ d ih =>
      by_cases hon : Relation.TransGen g.DependsOn u u
      · exact hmeets u _ _ .refl hon hd hd'
      · obtain ⟨v, huv, hv⟩ := (h.fits u _ hd).reached_off hon
        obtain ⟨e', he', hlt⟩ := (h'.fits u _ hd').above_off hon huv
        have hle : d ≤ e' + k :=
          ih (fun c e e'' hc => hmeets c e e'' (.head ⟨hon, huv⟩ hc)) hv he'
        omega

theorem dist_le_iff {a b k : Nat} : Nat.dist a b ≤ k ↔ a ≤ b + k ∧ b ≤ a + k := by
  rw [Nat.dist]
  omega

theorem Settled.dist_le_of_meets (h : Settled g table) (h' : Settled g table')
    (hmeets : ∀ c e e', g.Meets u c → Relation.TransGen g.DependsOn c c →
      table.depth? c = some e → table'.depth? c = some e' → Nat.dist e e' ≤ k)
    (hd : table.depth? u = some d) (hd' : table'.depth? u = some d') : Nat.dist d d' ≤ k := by
  refine dist_le_iff.2 ⟨h.le_add_of_meets h' ?_ hd hd', h'.le_add_of_meets h ?_ hd' hd⟩
  · exact fun c e e' hc hon he he' => (dist_le_iff.1 (hmeets c e e' hc hon he he')).1
  · exact fun c e' e hc hon he' he => (dist_le_iff.1 (hmeets c e e' hc hon he he')).2

/-! ## Two reports -/

/-- The report after questions that were asked of a new table. -/
def reportAfter (g : Graph) (questions : List Question) : DepthReport :=
  (report g (after g questions)).1

theorem exists_depths_after (hg : g.WellFormed) (questions : List Question) :
    ∃ depth : Nat → Nat,
      (reportAfter g questions).entries =
        g.nodes.map (fun v => ⟨v, depth v, g.cyclicNodes[v]?.getD false⟩) ∧
      ∀ v < g.size, (report g (after g questions)).2.depth? v = some (depth v) := by
  have hsettled := settled_after hg questions
  obtain ⟨_, _, _, hentries⟩ := hsettled.report hg
  exact ⟨fun v => ((report g (after g questions)).2.depth? v).getD 0, hentries,
    fun v hv => hsettled.depth?_report hg hv⟩

/-- The depths that two reports give to a node on no cycle are as close to each other as those they
give to the nodes on cycles that it meets. -/
theorem depth_off_cycles_inherited (project : Project) (questions questions' : List Question) :
    ∃ depth depth' : Nat → Nat,
      (reportAfter (Graph.build project) questions).entries = (Graph.build project).nodes.map
        (fun v => ⟨v, depth v, (Graph.build project).cyclicNodes[v]?.getD false⟩) ∧
      (reportAfter (Graph.build project) questions').entries = (Graph.build project).nodes.map
        (fun v => ⟨v, depth' v, (Graph.build project).cyclicNodes[v]?.getD false⟩) ∧
      ∀ v < (Graph.build project).size,
        (Graph.build project).cyclicNodes[v]?.getD false = false →
        ∀ k, (∀ c, (Graph.build project).Meets v c →
            (Graph.build project).cyclicNodes[c]?.getD false = true →
            Nat.dist (depth c) (depth' c) ≤ k) →
          Nat.dist (depth v) (depth' v) ≤ k := by
  have hg := Graph.build_wellFormed project
  obtain ⟨depth, hentries, hdepth⟩ := exists_depths_after hg questions
  obtain ⟨depth', hentries', hdepth'⟩ := exists_depths_after hg questions'
  have hsettled := ((settled_after hg questions).report hg).1
  have hsettled' := ((settled_after hg questions').report hg).1
  refine ⟨depth, depth', hentries, hentries', fun v hv _ k hmeets => ?_⟩
  refine hsettled.dist_le_of_meets hsettled' ?_ (hdepth v hv) (hdepth' v hv)
  intro c e e' hc hon he he'
  have hlt := hg.reaches_lt hv hc.reaches
  obtain rfl := Option.some.inj ((hdepth c hlt).symm.trans he)
  obtain rfl := Option.some.inj ((hdepth' c hlt).symm.trans he')
  exact hmeets c hc (Marks.getD_false_iff.2 (hg.flag_iff.2 hon))

/-- An example: two cycles with a file above each. -/
def loft : Project :=
  { files := ["top.go", "a.go", "b.go", "x.go", "side.go", "p.go", "q.go"].map .ofPath
    imports :=
      [("top.go", [.ofSpecifier "a.go"]), ("a.go", [.ofSpecifier "b.go"]),
        ("b.go", [.ofSpecifier "a.go", .ofSpecifier "x.go"]), ("side.go", [.ofSpecifier "p.go"]),
        ("p.go", [.ofSpecifier "q.go"]), ("q.go", [.ofSpecifier "p.go"])] }

/-- The file above the first cycle meets that cycle where it enters it, and nothing else. -/
theorem meets_loft {c : Nat} (h : (Graph.build loft).Meets 0 c) : c = 0 ∨ c = 1 := by
  have hon : Relation.TransGen (Graph.build loft).DependsOn 1 1 :=
    (Graph.build_wellFormed loft).flag_iff.1 (by decide +kernel)
  have hdeps : (Graph.build loft).deps 0 = [1] := by decide +kernel
  induction h with
  | refl => exact Or.inl rfl
  | tail _ hstep ih =>
      rcases ih with rfl | rfl
      · exact Or.inr (List.mem_singleton.1 (hdeps ▸ hstep.2))
      · exact absurd hon hstep.1

theorem depth_off_cycles_inherited_loft :
    (∀ c, (Graph.build loft).Meets 0 c → c = 0 ∨ c = 1) ∧
    (reportAfter (Graph.build loft) []).entries[0]? =
      (reportAfter (Graph.build loft) [.path "q.go"]).entries[0]? ∧
    (reportAfter (Graph.build loft) []).entries[4]? ≠
      (reportAfter (Graph.build loft) [.path "q.go"]).entries[4]? := by
  obtain ⟨depth, depth', hentries, hentries', hclose⟩ :=
    depth_off_cycles_inherited loft [] [.path "q.go"]
  have hat : (reportAfter (Graph.build loft) []).entries[1]? =
      (reportAfter (Graph.build loft) [.path "q.go"]).entries[1]? := by
    decide +kernel
  have hnode : ∀ v < 7, (Graph.build loft).nodes[v]? = some v := by decide +kernel
  refine ⟨fun _ => meets_loft, ?_, by decide +kernel⟩
  rw [hentries, hentries', List.getElem?_map, List.getElem?_map, hnode 1 (by decide)] at hat
  have hentry : depth 1 = depth' 1 := by simpa using hat
  have hsame : Nat.dist (depth 0) (depth' 0) ≤ 0 := by
    refine hclose 0 (by decide +kernel) (by decide +kernel) 0 fun c hc hon => ?_
    rcases meets_loft hc with rfl | rfl
    · exact absurd hon (by decide +kernel)
    · exact (Nat.dist_eq_zero hentry).le
  rw [hentries, hentries', List.getElem?_map, List.getElem?_map, hnode 0 (by decide),
    Option.map_some, Option.map_some, Nat.eq_of_dist_eq_zero (Nat.le_zero.1 hsame)]

theorem depth_above_cycle_differs_loft :
    (reportAfter (Graph.build loft) []).entries[0]? = some ⟨0, 3, false⟩ ∧
    (reportAfter (Graph.build loft) [.path "b.go"]).entries[0]? = some ⟨0, 2, false⟩ := by
  decide +kernel

end DepthTable

end LayerLint
