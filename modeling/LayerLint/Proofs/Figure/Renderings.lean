import Mathlib.Data.List.Nodup
import LayerLint.Proofs.Figure.Drawn
import LayerLint.Proofs.Figure.Statements

/-!
# The two renderings of a figure

A figure is written in DOT, nodes first and then edges, or in Mermaid, node by node. The lines of
both tell the same edges in the same order, between nodes that have a name.
-/

namespace LayerLint.Figure

variable {g : Graph} {map : LayerMap} {options : DrawOptions} {f : Figure} {u v : Nat}

/-- The edges of a figure by the names of their ends, in the order they are written. -/
def namedEdges (f : Figure) : List (String × String × EdgeKind) :=
  f.nodes.flatMap fun node =>
    (f.edgesFrom node).map fun edge => (f.id node, f.id edge.1, edge.2)

/-- A figure in which the nodes and the ends of their edges have names. -/
def Named (f : Figure) : Prop :=
  ∀ u ∈ f.nodes, IsName (f.id u) ∧ ∀ edge ∈ f.edgesFrom u, IsName (f.id edge.1)

/-- Lines that say nothing are not read. -/
theorem filterMap_silent {α : Type} {text : α → String} {read : String → Option Statement}
    {lines : List α} (h : ∀ line ∈ lines, read (text line) = none) :
    (lines.map text).filterMap read = [] := by
  rw [List.filterMap_map]
  exact List.filterMap_eq_nil_iff.2 h

/-! ## DOT -/

namespace Dot

theorem lines_eq (h : f.nodes ≠ []) :
    lines f =
      headLines f ++ nodeLines f ++ [.blank] ++ edgeLines f ++ legendLines f ++ [.endGraph] :=
  if_neg (by simpa using h)

theorem filterMap_nodeLines (hnamed : Named f) :
    ((nodeLines f).map Line.text).filterMap readStatement =
      f.nodes.map fun u => .node (f.id u) (f.label u) := by
  rw [nodeLines, List.map_map, List.filterMap_map, ← List.filterMap_eq_map]
  refine List.filterMap_congr fun u hu => ?_
  exact readStatement_node (hnamed u hu).1 (isPlain_nodeColors f u)

theorem filterMap_edgeLines (hnamed : Named f) :
    ((edgeLines f).map Line.text).filterMap readStatement =
      f.namedEdges.map fun edge => .edge edge.1 edge.2.1 edge.2.2 := by
  rw [edgeLines, namedEdges, List.map_flatMap, List.filterMap_flatMap, List.map_flatMap]
  refine List.flatMap_congr fun u hu => ?_
  rw [List.map_map, List.filterMap_map, List.map_map, ← List.filterMap_eq_map]
  refine List.filterMap_congr fun edge hedge => ?_
  exact readStatement_edge (hnamed u hu).1 ((hnamed u hu).2 edge hedge)

/-- The lines of a figure declare its nodes and then draw its edges. -/
theorem filterMap_lines (hnamed : Named f) (h : f.nodes ≠ []) :
    ((lines f).map Line.text).filterMap readStatement =
      f.nodes.map (fun u => .node (f.id u) (f.label u)) ++
        f.namedEdges.map fun edge => .edge edge.1 edge.2.1 edge.2.2 := by
  have hblank : ([Line.blank].map Line.text).filterMap readStatement = [] :=
    filterMap_silent (by decide)
  have hend : ([Line.endGraph].map Line.text).filterMap readStatement = [] :=
    filterMap_silent (by decide)
  simp only [lines_eq h, List.map_append, List.filterMap_append, filterMap_nodeLines hnamed,
    filterMap_edgeLines hnamed, filterMap_silent (readStatement_headLines f),
    filterMap_silent (readStatement_legendLines f), hblank, hend, List.nil_append, List.append_nil]

theorem filterMap_node?_lines (hnamed : Named f) (h : f.nodes ≠ []) :
    (((lines f).map Line.text).filterMap readStatement).filterMap Statement.node? =
      f.nodes.map fun u => (f.id u, f.label u) := by
  have hedges : (f.namedEdges.map fun edge => Statement.edge edge.1 edge.2.1 edge.2.2).filterMap
      Statement.node? = [] := by
    simp [Statement.node?]
  rw [filterMap_lines hnamed h, List.filterMap_append, hedges, List.append_nil,
    List.filterMap_map]
  exact congrFun List.filterMap_eq_map _

theorem filterMap_edge?_lines (hnamed : Named f) (h : f.nodes ≠ []) :
    (((lines f).map Line.text).filterMap readStatement).filterMap Statement.edge? =
      f.namedEdges := by
  have hnodes : (f.nodes.map fun u => Statement.node (f.id u) (f.label u)).filterMap
      Statement.edge? = [] := by
    simp [Statement.edge?]
  rw [filterMap_lines hnamed h, List.filterMap_append, hnodes, List.nil_append,
    List.filterMap_map]
  exact List.filterMap_some

end Dot

/-! ## Mermaid -/

namespace Mermaid

theorem lines_eq (direction : String) (h : f.nodes ≠ []) :
    lines direction f = .chart direction :: f.nodes.flatMap (nodeLines f) ++ styleLines f :=
  if_neg (by simpa using h)

/-- What the lines of a node say. -/
def nodeStatements (f : Figure) (u : Nat) : List Statement :=
  ((nodeLines f u).map Line.text).filterMap readStatement

theorem nodeStatements_alone (hname : IsName (f.id u)) (hnone : f.edgesFrom u = []) :
    nodeStatements f u = [.node (f.id u) (Text.expand escapeChar (f.label u))] := by
  have hread : readStatement (Line.node (mention f u)).text =
      some (.node (f.id u) (Text.expand escapeChar (f.label u))) := readStatement_node hname
  rw [nodeStatements, nodeLines, hnone, List.map_cons, List.map_nil,
    List.filterMap_cons_some hread, List.filterMap_nil]

theorem nodeStatements_edges (hname : IsName (f.id u))
    (hends : ∀ edge ∈ f.edgesFrom u, IsName (f.id edge.1)) (hsome : f.edgesFrom u ≠ []) :
    nodeStatements f u = (f.edgesFrom u).map fun edge => .edge (f.id u) (f.id edge.1) edge.2 := by
  have hlines : nodeLines f u = (f.edgesFrom u).map fun edge =>
      .edge (mention f u) (mention f edge.1) edge.2 := by
    unfold nodeLines
    split
    · contradiction
    · rfl
  rw [nodeStatements, hlines, List.map_map, List.filterMap_map, ← List.filterMap_eq_map]
  refine List.filterMap_congr fun edge hedge => ?_
  have hread : readStatement (Line.edge (mention f u) (mention f edge.1) edge.2).text =
      some (.edge (f.id u) (f.id edge.1) edge.2) := readStatement_edge hname (hends edge hedge)
  exact hread

theorem filterMap_edge?_nodeStatements (hname : IsName (f.id u))
    (hends : ∀ edge ∈ f.edgesFrom u, IsName (f.id edge.1)) :
    (nodeStatements f u).filterMap Statement.edge? =
      (f.edgesFrom u).map fun edge => (f.id u, f.id edge.1, edge.2) := by
  by_cases hnone : f.edgesFrom u = []
  · rw [nodeStatements_alone hname hnone, hnone]
    rfl
  · rw [nodeStatements_edges hname hends hnone, List.filterMap_map]
    exact congrFun List.filterMap_eq_map _

/-- A node without edges has a line of its own. -/
theorem exists_mention (hname : IsName (f.id u))
    (hends : ∀ edge ∈ f.edgesFrom u, IsName (f.id edge.1)) :
    ∃ statement ∈ nodeStatements f u, f.id u ∈ statement.mentioned := by
  by_cases hnone : f.edgesFrom u = []
  · rw [nodeStatements_alone hname hnone]
    exact ⟨_, List.mem_singleton_self _, List.mem_singleton_self _⟩
  · obtain ⟨edge, hedge⟩ := List.exists_mem_of_ne_nil _ hnone
    rw [nodeStatements_edges hname hends hnone]
    exact ⟨_, List.mem_map_of_mem hedge, List.mem_cons_self⟩

/-- The lines of a figure say what the lines of its nodes do. -/
theorem filterMap_lines (direction : String) (h : f.nodes ≠ []) :
    ((lines direction f).map Line.text).filterMap readStatement =
      f.nodes.flatMap (nodeStatements f) := by
  rw [lines_eq direction h, List.map_append, List.filterMap_append,
    filterMap_silent (readStatement_styleLines f), List.append_nil, List.map_cons,
    List.filterMap_cons_none (readStatement_chart direction), List.map_flatMap,
    List.filterMap_flatMap]
  rfl

theorem filterMap_edge?_lines (direction : String) (hnamed : Named f) (h : f.nodes ≠ []) :
    (((lines direction f).map Line.text).filterMap readStatement).filterMap Statement.edge? =
      f.namedEdges := by
  rw [filterMap_lines direction h, List.filterMap_flatMap, namedEdges]
  refine List.flatMap_congr fun u hu => ?_
  exact filterMap_edge?_nodeStatements (hnamed u hu).1 (hnamed u hu).2

end Mermaid

/-! ## Names -/

theorem numberedName_injective {i j : Nat} (h : s!"n{i}" = s!"n{j}") : i = j := by
  have hrepr : i.repr = j.repr := by simpa using h
  rw [← Nat.ofDigitChars_ten_toDigits (n := i), ← Nat.toList_repr, hrepr, Nat.toList_repr,
    Nat.ofDigitChars_ten_toDigits]

theorem id_drawn {i : Nat} (h : (drawnNodes g map options)[i]? = some v) :
    (draw g map options).id v = s!"n{i}" := by
  rw [id, id?_drawn h, Option.getD_some]

theorem map_id_drawnNodes : (drawnNodes g map options).map (draw g map options).id =
    (List.range (drawnNodes g map options).length).map fun i => s!"n{i}" := by
  apply List.ext_getElem
  · simp
  · intro i hi _
    rw [List.length_map] at hi
    rw [List.getElem_map, List.getElem_map, List.getElem_range]
    exact id_drawn (List.getElem?_eq_getElem hi)

theorem nodup_map_id_drawnNodes :
    ((drawnNodes g map options).map (draw g map options).id).Nodup := by
  rw [map_id_drawnNodes]
  exact List.nodup_range.map fun _ _ => numberedName_injective

theorem isName_numbered (i : Nat) : IsName s!"n{i}" := by
  have htext : (s!"n{i}").toList = 'n' :: Nat.toDigits 10 i := by
    show ("n" ++ Nat.repr i).toList = _
    rw [String.toList_append, Nat.toList_repr]
    rfl
  rw [IsName, htext]
  refine ⟨List.cons_ne_nil _ _, ?_⟩
  rw [List.all_cons, Bool.and_eq_true, List.all_eq_true]
  refine ⟨rfl, fun c hc => ?_⟩
  have hdigit : c.isDigit = true := Nat.isDigit_of_mem_toDigits (by decide) (by decide) hc
  simp [Char.isAlphanum, hdigit]

theorem isName_id (h : v ∈ drawnNodes g map options) : IsName ((draw g map options).id v) := by
  obtain ⟨i, hi⟩ := List.mem_iff_getElem?.1 h
  rw [id_drawn hi]
  exact isName_numbered i

theorem id_ne_empty (h : v ∈ drawnNodes g map options) : (draw g map options).id v ≠ "" := by
  intro hempty
  have hname := isName_id h
  rw [hempty] at hname
  exact hname.1 rfl

theorem named_draw : Named (draw g map options) := by
  refine fun u hu => ⟨isName_id hu, fun ⟨v, kind⟩ hedge => isName_id ?_⟩
  exact (mem_edgesFrom_iff.1 hedge).2.1

theorem namedEdges_draw : (draw g map options).namedEdges =
    (drawnNodes g map options).flatMap fun u =>
      ((g.deps u).filter (· ∈ drawnNodes g map options)).map fun v =>
        ((draw g map options).id u, (draw g map options).id v,
          (draw g map options).edgeKind u v) := by
  rw [namedEdges]
  refine List.flatMap_congr fun u _ => ?_
  rw [edgesFrom_eq, List.map_map]
  rfl

/-- The ends of the edges are drawn nodes. -/
theorem exists_of_mem_namedEdges {edge : String × String × EdgeKind}
    (h : edge ∈ (draw g map options).namedEdges) :
    ∃ u ∈ drawnNodes g map options, ∃ v ∈ drawnNodes g map options,
      edge.1 = (draw g map options).id u ∧ edge.2.1 = (draw g map options).id v := by
  rw [namedEdges_draw] at h
  obtain ⟨u, hu, h⟩ := List.mem_flatMap.1 h
  obtain ⟨v, hv, rfl⟩ := List.mem_map.1 h
  exact ⟨u, hu, v, of_decide_eq_true (List.mem_filter.1 hv).2, rfl, rfl⟩

/-! ## Both renderings -/

/-- Whatever is drawn of a graph, if anything is, the written lines are read back as follows. DOT
declares the drawn nodes by numbered names in the order of the graph, and both renderings tell the
same edges in the same order: the dependencies among the drawn nodes. Every end of an edge is
declared and not empty, and Mermaid mentions every drawn node. -/
theorem renderings_agree (project : Project) (map : LayerMap) (options : DrawOptions)
    (direction : String) {f : Figure} (hf : f = draw (Graph.build project) map options)
    (hnodes : f.nodes ≠ []) {dot mermaid : List String}
    (hdot : dot = (Dot.lines f).map Dot.Line.text)
    (hmermaid : mermaid = (Mermaid.lines direction f).map Mermaid.Line.text) :
    Dot.render f = String.join (dot.map (· ++ "\n")) ∧
    Mermaid.render direction f = String.join (mermaid.map (· ++ "\n")) ∧
    f.nodes.Pairwise (· < ·) ∧
    (dot.filterMap Dot.readStatement).filterMap Statement.node? =
      f.nodes.map (fun u => (f.id u, f.label u)) ∧
    f.nodes.map f.id = (List.range f.nodes.length).map (fun i => s!"n{i}") ∧
    (f.nodes.map f.id).Nodup ∧
    (dot.filterMap Dot.readStatement).filterMap Statement.edge? =
      (mermaid.filterMap Mermaid.readStatement).filterMap Statement.edge? ∧
    (mermaid.filterMap Mermaid.readStatement).filterMap Statement.edge? =
      f.nodes.flatMap (fun u => (((Graph.build project).deps u).filter (· ∈ f.nodes)).map fun v =>
        (f.id u, f.id v, f.edgeKind u v)) ∧
    (∀ edge ∈ (dot.filterMap Dot.readStatement).filterMap Statement.edge?,
      (edge.1 ∈ f.nodes.map f.id ∧ edge.1 ≠ "") ∧ edge.2.1 ∈ f.nodes.map f.id ∧ edge.2.1 ≠ "") ∧
    ∀ u ∈ f.nodes, ∃ statement ∈ mermaid.filterMap Mermaid.readStatement,
      f.id u ∈ statement.mentioned := by
  subst hf hdot hmermaid
  refine ⟨rfl, rfl, drawnNodes_pairwise, Dot.filterMap_node?_lines named_draw hnodes,
    map_id_drawnNodes, nodup_map_id_drawnNodes, ?_, ?_, ?_, ?_⟩
  · rw [Dot.filterMap_edge?_lines named_draw hnodes,
      Mermaid.filterMap_edge?_lines direction named_draw hnodes]
  · rw [Mermaid.filterMap_edge?_lines direction named_draw hnodes, namedEdges_draw]
    rfl
  · intro edge hedge
    rw [Dot.filterMap_edge?_lines named_draw hnodes] at hedge
    obtain ⟨u, hu, v, hv, hsource, htarget⟩ := exists_of_mem_namedEdges hedge
    rw [hsource, htarget]
    exact ⟨⟨List.mem_map_of_mem hu, id_ne_empty hu⟩, List.mem_map_of_mem hv, id_ne_empty hv⟩
  · intro u hu
    obtain ⟨hname, hends⟩ := named_draw u hu
    obtain ⟨statement, hstatement, hmention⟩ := Mermaid.exists_mention hname hends
    rw [Mermaid.filterMap_lines direction hnodes]
    exact ⟨statement, List.mem_flatMap.2 ⟨u, hu, hstatement⟩, hmention⟩

/-- An example: a circle inside a layer, a file apart, and a file outside the layer. -/
def courtyard : Project :=
  { files := ["main.go", "core/a.go", "core/b.go", "core/c.go"].map .ofPath
    imports :=
      [("main.go", [.ofSpecifier "core/a.go"]),
        ("core/a.go", [.ofSpecifier "main.go", .ofSpecifier "./b"]),
        ("core/b.go", [.ofSpecifier "core/a.go"])] }

/-- An example: the layer of that circle. -/
def courtyardLayers : LayerMap :=
  { layers := [⟨"core", "core/**", []⟩], positions := #[none, some 0, some 0, some 0] }

theorem renderings_agree_courtyard :
    ∃ f, f = draw (Graph.build courtyard) courtyardLayers { onlyLayer := some "core" } ∧
      f.nodes = [1, 2, 3] ∧
      Dot.render f = String.join (((Dot.lines f).map Dot.Line.text).map (· ++ "\n")) ∧
      (((Dot.lines f).map Dot.Line.text).filterMap Dot.readStatement).filterMap Statement.node? =
        [("n0", "core/a.go"), ("n1", "core/b.go"), ("n2", "core/c.go")] ∧
      (((Dot.lines f).map Dot.Line.text).filterMap Dot.readStatement).filterMap Statement.edge? =
        [("n0", "n1", .cycle), ("n1", "n0", .cycle)] ∧
      (((Mermaid.lines "TB" f).map Mermaid.Line.text).filterMap
        Mermaid.readStatement).filterMap Statement.edge? =
        [("n0", "n1", .cycle), ("n1", "n0", .cycle)] ∧
      ∃ statement ∈ ((Mermaid.lines "TB" f).map Mermaid.Line.text).filterMap
        Mermaid.readStatement, f.id 3 ∈ statement.mentioned := by
  obtain ⟨htext, _, _, hdeclared, _, _, hsame, hedges, _, hmentions⟩ := renderings_agree courtyard
    courtyardLayers { onlyLayer := some "core" } "TB" rfl (by decide +kernel) rfl rfl
  have hlist := hedges.trans (c := [("n0", "n1", .cycle), ("n1", "n0", .cycle)]) (by decide +kernel)
  exact ⟨_, rfl, by decide +kernel, htext, hdeclared.trans (by decide +kernel), hsame.trans hlist,
    hlist, hmentions 3 (by decide +kernel)⟩

end LayerLint.Figure
