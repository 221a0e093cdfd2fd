import LayerLint.Proofs.CycleWalk.Agreement
import LayerLint.Proofs.DepthWalk.OffCycle
import LayerLint.Rule.MaxDepth

/-!
# What the rule on depth reports

Depths are exact wherever no cycle can be reached, whatever was asked before. On a graph without
cycles the rule reports the files that start a chain of imports longer than its limit. On any graph
it reports the importers of the files that it reports, cycles apart.
-/

namespace LayerLint.MaxDepth

open DepthTable (Question Settled)

variable {g : Graph}

/-! ## Reports -/

theorem exists_entry {table : DepthTable} (hg : g.WellFormed) (h : Settled g table) {v : Nat}
    (hv : v < g.size) :
    ∃ entry, (DepthTable.report g table).1.entries[v]? = some entry ∧ entry.node = v ∧
      (DepthTable.report g table).2.depth? v = some entry.depth :=
  ⟨_, h.getElem?_report hg hv, rfl, h.depth?_report hg hv⟩

/-- On a graph without cycles a report gives each node the length of its longest chains. -/
theorem exists_depths (hg : g.WellFormed) (hacyclic : g.Acyclic) :
    ∃ depth : Nat → Nat, (∀ v < g.size, g.IsLongest v (depth v)) ∧
      g.depths.entries = g.nodes.map fun v => ⟨v, depth v, false⟩ := by
  have hsettled := ((DepthTable.settled_empty g).report hg).1
  obtain ⟨depth, hentries, hdepth⟩ := DepthTable.exists_depths_after hg []
  have hflag : ∀ v : Nat, g.cyclicNodes[v]?.getD false = false := by
    intro v
    rw [← Bool.not_eq_true, Marks.getD_false_iff, hg.flag_iff]
    intro hback
    obtain ⟨nodes, hcycle, _⟩ := Graph.exists_isCycle_of_transGen hback
    exact hacyclic nodes hcycle
  simp only [hflag] at hentries
  exact ⟨depth, fun v hv => hsettled.isLongest (hacyclic.cycleFree v) (hdepth v hv), hentries⟩

/-! ## Violations -/

variable {depth : Nat → Nat} {flag : Nat → Bool} {settings : Settings}

theorem check_of_depths (hdepths : g.depths.entries = g.nodes.map fun v => ⟨v, depth v, flag v⟩)
    (hkeep : ∀ v, (flag v && settings.skipCyclic) = false) (layers : LayerMap) :
    check settings ⟨g, layers⟩ = (g.nodes.filter (settings.limit < depth ·)).map fun v =>
      violation settings (g.path v) ⟨v, depth v, flag v⟩ := by
  simp only [check, DepthReport.exceeding, hdepths, List.filter_map, List.map_map,
    Function.comp_def, hkeep, Bool.not_false, List.filter_true]

theorem exists_violation_iff
    (hdepths : g.depths.entries = g.nodes.map fun v => ⟨v, depth v, flag v⟩)
    (hkeep : ∀ v, (flag v && settings.skipCyclic) = false) (layers : LayerMap) (path : String) :
    (∃ violation ∈ check settings ⟨g, layers⟩, violation.path = path) ↔
      ∃ v < g.size, g.path v = path ∧ settings.limit < depth v := by
  rw [check_of_depths hdepths hkeep]
  constructor
  · rintro ⟨_, hmem, rfl⟩
    obtain ⟨v, hv, rfl⟩ := List.mem_map.1 hmem
    obtain ⟨hnode, hlt⟩ := List.mem_filter.1 hv
    exact ⟨v, List.mem_range.1 hnode, rfl, of_decide_eq_true hlt⟩
  · rintro ⟨v, hv, rfl, hlt⟩
    refine ⟨_, List.mem_map_of_mem (List.mem_filter.2 ⟨List.mem_range.2 hv, ?_⟩), rfl⟩
    exact decide_eq_true hlt

/-- On a graph without cycles a file is reported exactly if a chain of imports from it is longer
than the limit. -/
theorem exists_violation_iff_hasChain (hg : g.WellFormed) (hacyclic : g.Acyclic)
    (settings : Settings) (layers : LayerMap) (path : String) :
    (∃ violation ∈ check settings ⟨g, layers⟩, violation.path = path) ↔
      ∃ v < g.size, g.path v = path ∧ ∃ k, settings.limit + 1 ≤ k ∧ g.HasChain v k := by
  obtain ⟨depth, hlongest, hdepths⟩ := exists_depths hg hacyclic
  rw [exists_violation_iff hdepths fun _ => Bool.false_and _]
  refine exists_congr fun v => and_congr_right fun hv => and_congr_right fun _ => ?_
  exact (hlongest v hv).lt_iff

/-- The depth of a node from which no cycle can be reached is the length of the longest chain from
it, in an answer and in a report, whatever was asked before. On a graph without cycles the rule
reports exactly the files that start a chain longer than the limit. -/
theorem depths_exact (project : Project) :
    (∀ (questions : List Question) (v : Nat), v < (Graph.build project).size →
      (Graph.build project).CycleFree v →
        (Graph.build project).IsLongest v
          (DepthTable.depth (Graph.build project)
            (DepthTable.after (Graph.build project) questions) v).1 ∧
        ∃ entry, (DepthTable.report (Graph.build project)
            (DepthTable.after (Graph.build project) questions)).1.entries[v]? = some entry ∧
          entry.node = v ∧ (Graph.build project).IsLongest v entry.depth) ∧
    ((Graph.build project).Acyclic → ∀ settings layers path,
      (∃ violation ∈ check settings ⟨Graph.build project, layers⟩, violation.path = path) ↔
        ∃ v < (Graph.build project).size, (Graph.build project).path v = path ∧
          ∃ k, settings.limit + 1 ≤ k ∧ (Graph.build project).HasChain v k) := by
  have hg := Graph.build_wellFormed project
  refine ⟨?_, fun hacyclic => exists_violation_iff_hasChain hg hacyclic⟩
  intro questions v hv hfree
  have hsettled := DepthTable.settled_after hg questions
  constructor
  · obtain ⟨hafter, _, hanswer⟩ := hsettled.depth hg v
    exact hafter.isLongest hfree (hanswer hv)
  · obtain ⟨entry, hentry, hnode, hknown⟩ := exists_entry hg hsettled hv
    exact ⟨entry, hentry, hnode, (hsettled.report hg).1.isLongest hfree hknown⟩

/-- An example: files that import each other above files that do not. -/
def overhang : Project :=
  { files := ["main.go", "a.go", "b.go", "x.go", "y.go", "z.go"].map .ofPath
    imports :=
      [("main.go", [.ofSpecifier "a.go", .ofSpecifier "x.go"]), ("a.go", [.ofSpecifier "b.go"]),
        ("b.go", [.ofSpecifier "a.go", .ofSpecifier "x.go"]),
        ("x.go", [.ofSpecifier "z.go", .ofSpecifier "y.go"]), ("y.go", [.ofSpecifier "z.go"])] }

/-- An example: the files of `overhang` that do not import each other. -/
def footing : Project :=
  { overhang with files := ["main.go", "x.go", "y.go", "z.go"].map .ofPath }

theorem depths_exact_overhang :
    (Graph.build overhang).CycleFree 3 ∧
    (Graph.build overhang).IsLongest 3
      (DepthTable.depth (Graph.build overhang)
        (DepthTable.after (Graph.build overhang) [.node 1, .path "b.go", .node 0]) 3).1 ∧
    (Graph.build footing).Acyclic ∧
    ∃ v < (Graph.build footing).size, (Graph.build footing).path v = "main.go" ∧
      ∃ k, 2 + 1 ≤ k ∧ (Graph.build footing).HasChain v k := by
  have hfree : (Graph.build overhang).CycleFree 3 :=
    ((Graph.build_wellFormed overhang).cycleFree_iff (by decide +kernel)).2 (by decide +kernel)
  have hacyclic : (Graph.build footing).Acyclic :=
    (Graph.build_wellFormed footing).acyclic_iff.2 (by decide +kernel)
  have hreported : ∃ violation ∈ check { limit := 2 } ⟨Graph.build footing, ⟨[], #[]⟩⟩,
      violation.path = "main.go" := by
    decide +kernel
  exact ⟨hfree, ((depths_exact overhang).1 _ 3 (by decide +kernel) hfree).1, hacyclic,
    ((depths_exact footing).2 hacyclic { limit := 2 } _ _).1 hreported⟩

/-! ## Importers -/

/-- Whatever was asked before, a report gives depth zero exactly to the files without dependencies,
to none more than one above its deepest dependency, and to each more than to a dependency that does
not lead back to it. So, unless files on cycles are passed over, the rule reports a file that
depends on a reported one and is not on a cycle with it. -/
theorem deep_files_have_deep_importers (project : Project) :
    (∀ questions : List Question, ∃ depth : Nat → Nat,
      (DepthTable.reportAfter (Graph.build project) questions).entries =
        (Graph.build project).nodes.map
          (fun v => ⟨v, depth v, (Graph.build project).cyclicNodes[v]?.getD false⟩) ∧
      ∀ u < (Graph.build project).size,
        (depth u = 0 ↔ (Graph.build project).deps u = []) ∧
        depth u ≤ 1 + (((Graph.build project).deps u).map depth).foldr max 0 ∧
        ∀ v ∈ (Graph.build project).deps u, ¬(Graph.build project).Reaches v u →
          depth v + 1 ≤ depth u) ∧
    ∀ (settings : Settings) (layers : LayerMap) (u v : Nat), settings.skipCyclic = false →
      v ∈ (Graph.build project).deps u →
      ¬((Graph.build project).Reaches u v ∧ (Graph.build project).Reaches v u) →
      (∃ violation ∈ check settings ⟨Graph.build project, layers⟩,
        violation.path = (Graph.build project).path v) →
      ∃ violation ∈ check settings ⟨Graph.build project, layers⟩,
        violation.path = (Graph.build project).path u := by
  have hg := Graph.build_wellFormed project
  constructor
  · intro questions
    have hsettled := ((DepthTable.settled_after hg questions).report hg).1
    obtain ⟨depth, hentries, hdepth⟩ := DepthTable.exists_depths_after hg questions
    refine ⟨depth, hentries, fun u hu => ?_⟩
    have hfits := hsettled.fits u (depth u) (hdepth u hu)
    exact ⟨hfits.zero_iff, hfits.le_succ_max fun v hv => hdepth v (hg.deps_lt hv),
      fun v hv hback => hfits.succ_le hv hback (hdepth v (hg.deps_lt hv))⟩
  · intro settings layers u v hskip huv hapart
    obtain ⟨depth, hentries, hdepth⟩ := DepthTable.exists_depths_after hg []
    have hkeep : ∀ v : Nat, ((Graph.build project).cyclicNodes[v]?.getD false &&
        settings.skipCyclic) = false := by simp [hskip]
    rw [exists_violation_iff hentries hkeep, exists_violation_iff hentries hkeep]
    rintro ⟨w, hw, hpath, hlimit⟩
    obtain rfl : w = v := hg.path_injective hw (hg.deps_lt huv) hpath
    have hu := hg.source_lt huv
    have hsettled := ((DepthTable.settled_after hg []).report hg).1
    have hdeeper := (hsettled.fits u (depth u) (hdepth u hu)).succ_le huv
      (fun hback => hapart ⟨.single huv, hback⟩) (hdepth w hw)
    exact ⟨u, hu, rfl, Nat.lt_of_lt_of_le hlimit (Nat.le_of_succ_le hdeeper)⟩

theorem deep_files_have_deep_importers_overhang :
    1 ∈ (Graph.build overhang).deps 0 ∧ ¬(Graph.build overhang).Reaches 1 0 ∧
    (∃ violation ∈ check { limit := 3 } ⟨Graph.build overhang, ⟨[], #[]⟩⟩,
      violation.path = "a.go") ∧
    ∃ violation ∈ check { limit := 3 } ⟨Graph.build overhang, ⟨[], #[]⟩⟩,
      violation.path = "main.go" := by
  have hg := Graph.build_wellFormed overhang
  have hdep : 1 ∈ (Graph.build overhang).deps 0 := by decide +kernel
  have hback : ¬(Graph.build overhang).Reaches 1 0 := by
    rw [← hg.reachable_iff (hg.deps_lt hdep)]
    decide +kernel
  have hreported : ∃ violation ∈ check { limit := 3 } ⟨Graph.build overhang, ⟨[], #[]⟩⟩,
      violation.path = "a.go" := by
    decide +kernel
  have hpaths : (Graph.build overhang).path 0 = "main.go" ∧
      (Graph.build overhang).path 1 = "a.go" := by
    decide +kernel
  have himporter := (deep_files_have_deep_importers overhang).2 { limit := 3 } ⟨[], #[]⟩ 0 1 rfl
    hdep fun hmutual => hback hmutual.2
  rw [hpaths.1, hpaths.2] at himporter
  exact ⟨hdep, hback, hreported, himporter hreported⟩

end LayerLint.MaxDepth
