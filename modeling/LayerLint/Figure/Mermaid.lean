import LayerLint.Figure.Basic

/-!
# Figures in Mermaid

A figure as the statements of a Mermaid flowchart, one to a line.
-/

namespace LayerLint.Figure.Mermaid

/-- A node where a statement mentions it. -/
structure Mention where
  id : String
  label : String
  deriving DecidableEq, Repr

/-- A line of a flowchart. -/
inductive Line where
  /-- Opens the chart. -/
  | chart (direction : String)
  | blank
  | remark (text : String)
  | node (mention : Mention)
  | edge (source target : Mention) (kind : EdgeKind)
  | style (id : String) (colors : Colors)
  deriving DecidableEq, Repr

/-- A character of a label. -/
def escapeChar (c : Char) : List Char :=
  if c = '"' then "#quot;".toList else [c]

/-- The text of a mention. -/
def Mention.text (mention : Mention) : String :=
  mention.id ++ "[\"" ++ Text.expand escapeChar mention.label ++ "\"]"

/-- The arrow of an edge. -/
def arrow : EdgeKind → String
  | .cycle => "-.->|cycle|"
  | .violation => "-.->|violation|"
  | .normal => "-->"

/-- The text of a line. -/
def Line.text : Line → String
  | .chart direction => s!"graph {direction}"
  | .blank => ""
  | .remark text => s!"  %% {text}"
  | .node mention => s!"  {mention.text}"
  | .edge source target kind => s!"  {source.text} {arrow kind} {target.text}"
  | .style id colors => s!"  style {id} fill:{colors.fill},stroke:{colors.border},stroke-width:2px"

/-- The mention of a node. -/
def mention (f : Figure) (node : Nat) : Mention :=
  { id := f.id node, label := f.label node }

/-- The edges of a node, or the node alone when it has none. -/
def nodeLines (f : Figure) (node : Nat) : List Line :=
  match f.edgesFrom node with
  | [] => [.node (mention f node)]
  | edges => edges.map fun (target, kind) => .edge (mention f node) (mention f target) kind

/-- The styles of the nodes whose layer has colours, when layers are shown. -/
def styleLines (f : Figure) : List Line :=
  if f.options.showLayers then
    [.blank, .remark "Layer styling"] ++
      f.nodes.filterMap fun node => (f.colors node).map (.style (f.id node) ·)
  else []

/-- The lines of a figure. -/
def lines (direction : String) (f : Figure) : List Line :=
  if f.nodes.isEmpty then [.chart direction, .remark "No nodes to display"]
  else .chart direction :: f.nodes.flatMap (nodeLines f) ++ styleLines f

/-- The direction a chart runs in when none is given. -/
def defaultDirection : String := "LR"

/-- A figure as Mermaid text. -/
def render (direction : String) (f : Figure) : String :=
  Text.unlines ((lines direction f).map Line.text)

/-- A figure as Mermaid text in a Markdown code block. -/
def renderMarkdown (direction : String) (f : Figure) : String :=
  "```mermaid\n" ++ render direction f ++ "```\n"

end LayerLint.Figure.Mermaid
