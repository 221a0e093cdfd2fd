import LayerLint.Proofs.CycleWalk.Agreement
import LayerLint.Rule.NoCycles

/-!
# What the rule on cycles reports

The reported cycles are real, and they are enough: to take out the import that each of them names is
to leave no cycle.
-/

namespace LayerLint.NoCycles

variable {g : Graph} {c : Cycle}

/-! ## Reported cycles -/

theorem two_le_length (h : g.WellFormed) (hc : c ∈ g.cycles) : 2 ≤ c.nodes.length := by
  have hcycle := (Graph.genuine_cycles hc).1.isCycle
  match hnodes : c.nodes with
  | [] => exact absurd hnodes hcycle.ne_nil
  | [v] =>
      rw [hnodes, Graph.IsCycle] at hcycle
      have hself : g.DependsOn v v := by simpa using hcycle
      exact absurd rfl (h.deps_ne hself)
  | u :: v :: rest => simp

/-- The closing edge joins the closing file to the first file of the text. -/
theorem files_of_closingEdge (hc : c ∈ g.cycles) {e : Nat × Nat} (he : c.closingEdge = some e) :
    c.closingFile = some (g.path e.1) ∧ c.files.head? = some (g.path e.2) := by
  obtain ⟨hlast, hfirst⟩ := closingPair_eq_some.1 he
  rw [Cycle.closingFile, (Graph.genuine_cycles hc).2, List.getLast?_map, List.head?_map, hlast,
    hfirst]
  exact ⟨rfl, rfl⟩

theorem exists_closingEdge (hc : c ∈ g.cycles) :
    ∃ e, c.closingEdge = some e ∧ g.DependsOn e.1 e.2 :=
  (Graph.genuine_cycles hc).1.isCycle.exists_closingPair

theorem text_eq {first : String} (hfirst : c.files.head? = some first) :
    ∃ rest, c.text = first ++ " -> " ++ rest := by
  cases hfiles : c.files with
  | nil => simp [hfiles] at hfirst
  | cons file files =>
      obtain rfl : file = first := by simpa [hfiles] using hfirst
      refine ⟨String.join (files.map (· ++ " -> ")) ++ file, ?_⟩
      simp [Cycle.text, hfiles, String.append_assoc]

/-! ## Violations -/

theorem mem_check_of_cycle (settings : Settings) (layers : LayerMap) (hc : c ∈ g.cycles)
    {closing : String} (hclosing : c.closingFile = some closing) :
    cycleViolation settings.severity c closing ∈ check settings ⟨g, layers⟩ := by
  refine List.mem_append_left _ (List.mem_filterMap.2 ⟨c, hc, ?_⟩)
  rw [hclosing]
  rfl

/-- The message on a component is not the one on a cycle. -/
theorem componentViolation_message (component : Component) (first : String) :
    (componentViolation component first).message ≠ "cyclic dependency detected" := by
  intro heq
  have htext : (componentViolation component first).message =
      toString component.nodes.length ++ " files are mutually dependent" := rfl
  have hlast := congrArg (fun text => text.toList.getLast?) (htext.symm.trans heq)
  simp at hlast

theorem cycle_of_mem_check {settings : Settings} {layers : LayerMap} {violation : Violation}
    (hmem : violation ∈ check settings ⟨g, layers⟩)
    (hmessage : violation.message = "cyclic dependency detected") :
    ∃ c ∈ g.cycles, ∃ closing, c.closingFile = some closing ∧
      violation = cycleViolation settings.severity c closing := by
  rcases List.mem_append.1 hmem with hcycle | hcomponent
  · obtain ⟨c, hc, hviolation⟩ := List.mem_filterMap.1 hcycle
    obtain ⟨closing, hclosing, rfl⟩ := Option.map_eq_some_iff.1 hviolation
    exact ⟨c, hc, closing, hclosing, rfl⟩
  · split at hcomponent
    · obtain ⟨component, _, hviolation⟩ := List.mem_filterMap.1 hcomponent
      obtain ⟨first, _, rfl⟩ := Option.map_eq_some_iff.1 hviolation
      exact absurd hmessage (componentViolation_message component first)
    · cases hcomponent

/-! ## The cycles of a project -/

/-- Every cycle goes along the closing edge of a reported cycle, whose violation stands at the file
that the edge starts from. Without the closing edges there is no cycle. -/
theorem every_cycle_reported (project : Project) :
    (∀ nodes, (Graph.build project).IsCycle nodes →
      ∃ c ∈ (Graph.build project).cycles, ∃ e, c.closingEdge = some e ∧
        e ∈ (Cycle.ofNodes (Graph.build project) nodes).edges ∧
        ∀ settings layers,
          cycleViolation settings.severity c ((Graph.build project).path e.1) ∈
            check settings ⟨Graph.build project, layers⟩) ∧
    ((Graph.build project).without
      ((Graph.build project).cycles.filterMap Cycle.closingEdge)).Acyclic := by
  have h := Graph.build_wellFormed project
  constructor
  · intro nodes hcycle
    obtain ⟨c, hc, e, he, hmem⟩ := h.exists_closing_edge hcycle
    exact ⟨c, hc, e, he, hmem, fun settings layers =>
      mem_check_of_cycle settings layers hc (files_of_closingEdge hc he).1⟩
  · intro nodes hcycle
    have hedges := (Graph.isCycle_iff_edges.1 hcycle).2
    have hkept : (Graph.build project).IsCycle nodes :=
      Graph.isCycle_iff_edges.2 ⟨hcycle.ne_nil, fun e he =>
        (Graph.dependsOn_without.1 (hedges e he)).1⟩
    obtain ⟨c, hc, e, he, hmem⟩ := h.exists_closing_edge hkept
    exact (Graph.dependsOn_without.1 (hedges e hmem)).2 (List.mem_filterMap.2 ⟨c, hc, he⟩)

theorem every_cycle_reported_knot :
    (Graph.build knot).IsCycle [3, 2] ∧
      ∃ c ∈ (Graph.build knot).cycles, ∃ e, c.closingEdge = some e ∧ e ∈ [(3, 2), (2, 3)] := by
  have hcycle : (Graph.build knot).IsCycle [3, 2] := by decide +kernel
  obtain ⟨c, hc, e, he, hmem, _⟩ := (every_cycle_reported knot).1 [3, 2] hcycle
  exact ⟨hcycle, c, hc, e, he, hmem⟩

/-- Every reported cycle lists two or more files, none of them twice, along edges of the graph, and
has a violation. The file that a violation on a cycle names imports the first file of the cycle it
prints. -/
theorem reported_cycles_genuine (project : Project) :
    (∀ c ∈ (Graph.build project).cycles,
      2 ≤ c.nodes.length ∧ c.nodes.Nodup ∧
      (∀ e ∈ c.edges, e.2 ∈ (Graph.build project).deps e.1) ∧
      c.files = c.nodes.map (Graph.build project).path ∧
      ∃ closing, c.closingFile = some closing ∧ ∀ settings layers,
        ∃ violation ∈ check settings ⟨Graph.build project, layers⟩,
          violation.message = "cyclic dependency detected" ∧ violation.path = closing ∧
          violation.context = some ("cycle: " ++ c.text)) ∧
    ∀ settings layers, ∀ violation ∈ check settings ⟨Graph.build project, layers⟩,
      violation.message = "cyclic dependency detected" →
        ∃ c ∈ (Graph.build project).cycles, ∃ first rest,
          c.closingFile = some violation.path ∧ c.files.head? = some first ∧
          violation.context = some ("cycle: " ++ c.text) ∧ c.text = first ++ " -> " ++ rest ∧
          first ∈ (Graph.build project).dependencyPaths violation.path := by
  have h := Graph.build_wellFormed project
  constructor
  · intro c hc
    obtain ⟨hgenuine, hfiles⟩ := Graph.genuine_cycles hc
    obtain ⟨e, he, _⟩ := exists_closingEdge hc
    have hclosing := (files_of_closingEdge hc he).1
    refine ⟨two_le_length h hc, hgenuine.nodup, (Graph.isCycle_iff_edges.1 hgenuine.isCycle).2,
      hfiles, _, hclosing, fun settings layers => ?_⟩
    exact ⟨_, mem_check_of_cycle settings layers hc hclosing, rfl, rfl, rfl⟩
  · intro settings layers violation hmem hmessage
    obtain ⟨c, hc, closing, hclosing, rfl⟩ := cycle_of_mem_check hmem hmessage
    obtain ⟨e, he, hdep⟩ := exists_closingEdge hc
    obtain ⟨hlast, hfirst⟩ := files_of_closingEdge hc he
    obtain rfl : closing = (Graph.build project).path e.1 :=
      Option.some.inj (hclosing.symm.trans hlast)
    obtain ⟨rest, htext⟩ := text_eq hfirst
    exact ⟨c, hc, _, rest, hclosing, hfirst, rfl, htext, h.mem_dependencyPaths hdep⟩

theorem reported_cycles_genuine_knot :
    ⟨[2, 3], ["b.go", "c.go"]⟩ ∈ (Graph.build knot).cycles ∧
      (∀ e ∈ [(2, 3), (3, 2)], e.2 ∈ (Graph.build knot).deps e.1) ∧
      ∃ violation ∈ check {} ⟨Graph.build knot, ⟨[], #[]⟩⟩,
        violation.message = "cyclic dependency detected" ∧ violation.path = "c.go" := by
  have hmem : ⟨[2, 3], ["b.go", "c.go"]⟩ ∈ (Graph.build knot).cycles := by decide +kernel
  obtain ⟨_, _, hedges, _, closing, hclosing, hviolation⟩ :=
    (reported_cycles_genuine knot).1 _ hmem
  obtain ⟨violation, hcheck, hmessage, hpath, _⟩ := hviolation {} ⟨[], #[]⟩
  exact ⟨hmem, hedges, violation, hcheck, hmessage, hpath.trans (Option.some.inj hclosing).symm⟩

end LayerLint.NoCycles
