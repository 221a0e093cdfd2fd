import LayerLint.Figure.Basic

/-!
# Figures in DOT

A figure as the statements of a DOT graph, one to a line.
-/

namespace LayerLint.Figure.Dot

/-! ## Quoted text -/

/-- A character inside a quoted string. -/
def escapeChar (c : Char) : List Char :=
  if c = '\\' then ['\\', '\\'] else if c = '"' then ['\\', '"'] else [c]

/-- A text inside a quoted string. -/
def escape (text : String) : String :=
  Text.expand escapeChar text

/-! ## Statements -/

/-- A line of a DOT graph. -/
inductive Line where
  /-- Opens the graph. -/
  | graph (title : String)
  /-- A setting of the graph. -/
  | setting (text : String)
  | blank
  | remark (text : String)
  | node (id label : String) (colors : Colors)
  | edge (source target : String) (kind : EdgeKind)
  /-- Opens the legend. -/
  | legend
  /-- A setting of the legend. -/
  | legendSetting (text : String)
  | legendEntry (index : Nat) (name : String) (colors : Colors)
  /-- Closes the legend. -/
  | endLegend
  /-- Closes the graph. -/
  | endGraph
  deriving DecidableEq, Repr

/-- The colours of nodes without a colour of their own. -/
def plainColors : Colors := ⟨"black", "#FFFFFF"⟩

/-- The colours of nodes without a layer. -/
def unassignedColors : Colors := ⟨"gray", "#F5F5F5"⟩

/-- The attributes of a box with a label. -/
def boxAttributes (label : String) (colors : Colors) : String :=
  s!"[label=\"{escape label}\", color=\"{colors.border}\", fillcolor=\"{colors.fill}\", " ++
    "style=\"rounded,filled\"];"

/-- The attributes of an edge. -/
def edgeAttributes : EdgeKind → String
  | .cycle => "[color=\"orange\", style=\"bold\", penwidth=2.0];"
  | .violation => "[color=\"red\", style=\"bold\", penwidth=2.0];"
  | .normal => "[color=\"black\", style=\"solid\", penwidth=1.0];"

/-- The text of a line. -/
def Line.text : Line → String
  | .graph title => "digraph \"" ++ escape title ++ "\" \x7b"
  | .setting text => s!"  {text};"
  | .blank => ""
  | .remark text => s!"  // {text}"
  | .node id label colors => s!"  {id} {boxAttributes label colors}"
  | .edge source target kind => s!"  {source} -> {target} {edgeAttributes kind}"
  | .legend => "  subgraph cluster_legend \x7b"
  | .legendSetting text => s!"    {text};"
  | .legendEntry index name colors => s!"    legend{index} {boxAttributes name colors}"
  | .endLegend => "  \x7d"
  | .endGraph => "\x7d"

/-- The colours of a node. -/
def nodeColors (f : Figure) (node : Nat) : Colors :=
  if !f.options.showLayers then plainColors
  else if !f.isAssigned node then unassignedColors
  else (f.colors node).getD plainColors

/-- The lines in front of the nodes. -/
def headLines (f : Figure) : List Line :=
  [.graph f.options.title, .setting "rankdir=LR", .setting "node [shape=box, style=rounded]",
    .setting "edge [arrowhead=vee]", .blank]

/-- A line for each node. -/
def nodeLines (f : Figure) : List Line :=
  f.nodes.map fun node => .node (f.id node) (f.label node) (nodeColors f node)

/-- A line for each edge. -/
def edgeLines (f : Figure) : List Line :=
  f.nodes.flatMap fun node =>
    (f.edgesFrom node).map fun (target, kind) => .edge (f.id node) (f.id target) kind

/-- The legend of the declared layers, when layers are shown. -/
def legendLines (f : Figure) : List Line :=
  if f.options.showLayers then
    [.blank, .remark "Legend", .legend, .legendSetting "label=\"Layers\"",
        .legendSetting "style=filled", .legendSetting "fillcolor=\"#F0F0F0\""] ++
      f.layerNames.zipIdx.map (fun (name, index) =>
        .legendEntry index name ((layerColors name).getD plainColors)) ++
      [.endLegend]
  else []

/-- The lines of a figure. -/
def lines (f : Figure) : List Line :=
  if f.nodes.isEmpty then headLines f ++ [.remark "No nodes to display", .endGraph]
  else headLines f ++ nodeLines f ++ [.blank] ++ edgeLines f ++ legendLines f ++ [.endGraph]

/-- A figure as DOT text. -/
def render (f : Figure) : String :=
  Text.unlines ((lines f).map Line.text)

end LayerLint.Figure.Dot
