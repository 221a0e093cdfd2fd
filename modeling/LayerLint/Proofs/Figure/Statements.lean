import Mathlib.Data.List.Basic
import LayerLint.Figure.Mermaid
import LayerLint.Proofs.Figure.Quoting
import LayerLint.Proofs.Text.Split

/-!
# Statements read back from their lines

A line of a drawing declares a node, draws an edge, or does neither. In each of the two formats a
reader tells which from the text of the line alone, and gets back the names and the kind.
-/

namespace LayerLint.Figure

/-- What a line of a drawing says. -/
inductive Statement where
  | node (id label : String)
  | edge (source target : String) (kind : EdgeKind)
  deriving DecidableEq, Repr

/-- The name and the label of the node that a statement declares. -/
def Statement.node? : Statement → Option (String × String)
  | .node id label => some (id, label)
  | .edge .. => none

/-- The ends and the kind of the edge that a statement draws. -/
def Statement.edge? : Statement → Option (String × String × EdgeKind)
  | .node .. => none
  | .edge source target kind => some (source, target, kind)

/-- The names that a statement mentions. -/
def Statement.mentioned : Statement → List String
  | .node id _ => [id]
  | .edge source target _ => [source, target]

/-! ## Words and names -/

/-- A name has letters and digits only, at least one. -/
def IsName (name : String) : Prop :=
  name.toList ≠ [] ∧ name.toList.all Char.isAlphanum = true

/-- Reads given words. -/
def readWords (words : String) (cs : List Char) : Option (List Char) :=
  cs.dropPrefix? words.toList

/-- Reads a name, up to the first character that cannot be in one. -/
def readName (cs : List Char) : Option (String × List Char) :=
  match cs.span Char.isAlphanum with
  | ([], _) => none
  | (name, rest) => some (String.ofList name, rest)

variable {name id label source target : String} {kind : EdgeKind} {colors : Colors}
  {cs rest : List Char}

@[simp]
theorem readWords_append (words : String) (rest : List Char) :
    readWords words (words.toList ++ rest) = some rest :=
  List.dropPrefix?_append_of_beq rest (beq_self_eq_true _)

theorem readName_append (h : IsName name) (hrest : ∀ c ∈ rest.head?, c.isAlphanum = false) :
    readName (name.toList ++ rest) = some (name, rest) := by
  obtain ⟨hne, hall⟩ := h
  rw [readName, Text.span_append (List.all_eq_true.1 hall) hrest]
  split
  · rename_i heq
    exact absurd (Prod.mk.inj heq).1 hne
  · rename_i heq
    obtain ⟨rfl, rfl⟩ := Prod.mk.inj heq
    rw [String.ofList_toList]

theorem readName_eq_none (h : ∀ c ∈ cs.head?, c.isAlphanum = false) : readName cs = none := by
  rw [readName, ← List.nil_append cs, Text.span_append (fun _ hc => absurd hc List.not_mem_nil) h]

/-! ## DOT -/

namespace Dot

/-- The kind of an edge by its colour. -/
def kindOfColor : String → Option EdgeKind
  | "orange" => some .cycle
  | "red" => some .violation
  | "black" => some .normal
  | _ => none

/-- Reads words that open a quoted text, and the text. -/
def readValue (words : String) (cs : List Char) : Option (String × List Char) := do
  let (value, rest) ← readQuoted (← readWords words cs)
  return (String.ofList value, rest)

/-- Reads the colours of a box, to the end of its line. -/
def readColors (cs : List Char) : Option Colors := do
  let (border, rest) ← readValue ", color=\"" cs
  let (fill, rest) ← readValue ", fillcolor=\"" rest
  let (_, rest) ← readValue ", style=\"" rest
  if rest = "];".toList then some ⟨border, fill⟩ else none

/-- Reads the kind of an edge off its attributes, to the end of its line. -/
def readKind (cs : List Char) : Option EdgeKind := do
  let (color, rest) ← readValue " [color=\"" cs
  let (_, rest) ← readValue ", style=\"" rest
  let rest ← readWords ", penwidth=" rest
  if rest.dropWhile (fun c => c.isDigit || c = '.') = "];".toList then kindOfColor color else none

/-- Reads the declaration of a node behind its name. -/
def readNode (id : String) (cs : List Char) : Option Statement := do
  let (label, rest) ← readValue " [label=\"" cs
  let _ ← readColors rest
  return .node id label

/-- Reads an edge behind its source. -/
def readEdge (source : String) (cs : List Char) : Option Statement := do
  let (target, rest) ← readName (← readWords " -> " cs)
  let kind ← readKind rest
  return .edge source target kind

/-- Reads the line of a statement. The boxes of the legend stand deeper and are none. -/
def readStatement (line : String) : Option Statement := do
  let (id, rest) ← readName (← readWords "  " line.toList)
  readEdge id rest <|> readNode id rest

/-! ### Attributes -/

/-- A text that stands between quotes as it is. -/
def IsPlain (text : String) : Prop := escape text = text

instance (text : String) : Decidable (IsPlain text) :=
  inferInstanceAs (Decidable (escape text = text))

theorem readValue_append (words value : String) (rest : List Char) :
    readValue words (words.toList ++ ((escape value).toList ++ '"' :: rest)) =
      some (value, rest) := by
  rw [readValue, readWords_append]
  simp

theorem readValue_plain {value : String} (words : String) (h : IsPlain value) (rest : List Char) :
    readValue words (words.toList ++ (value.toList ++ '"' :: rest)) = some (value, rest) := by
  have hread := readValue_append words value rest
  rwa [h] at hread

theorem readKind_append {color style : String} {width : List Char} (hcolor : IsPlain color)
    (hstyle : IsPlain style) (hwidth : width.all (fun c => c.isDigit || c = '.') = true) :
    readKind (" [color=\"".toList ++ (color.toList ++ '"' :: (", style=\"".toList ++
      (style.toList ++ '"' :: (", penwidth=".toList ++ (width ++ "];".toList)))))) =
      kindOfColor color := by
  simp only [readKind, readValue_plain _ hcolor, readValue_plain _ hstyle, readWords_append,
    Option.bind_eq_bind, Option.bind_some]
  rw [List.dropWhile_append_of_pos (List.all_eq_true.1 hwidth)]
  exact if_pos rfl

theorem edgeAttributes_eq (kind : EdgeKind) : ∃ color style width,
    edgeAttributes kind =
      "[color=\"" ++ color ++ "\", style=\"" ++ style ++ "\", penwidth=" ++ width ++ "];" ∧
    IsPlain color ∧ IsPlain style ∧
    width.toList.all (fun c => c.isDigit || c = '.') = true ∧ kindOfColor color = some kind := by
  cases kind with
  | cycle => exact ⟨"orange", "bold", "2.0", by decide⟩
  | violation => exact ⟨"red", "bold", "2.0", by decide⟩
  | normal => exact ⟨"black", "solid", "1.0", by decide⟩

theorem readKind_edgeAttributes (kind : EdgeKind) :
    readKind (" ".toList ++ (edgeAttributes kind).toList) = some kind := by
  obtain ⟨color, style, width, heq, hcolor, hstyle, hwidth, hkind⟩ := edgeAttributes_eq kind
  rw [← hkind, ← readKind_append hcolor hstyle hwidth, heq]
  simp

theorem readColors_boxEnding (hborder : IsPlain colors.border) (hfill : IsPlain colors.fill) :
    readColors (boxEnding colors).toList = some colors := by
  have htext : (boxEnding colors).toList = ", color=\"".toList ++ (colors.border.toList ++ '"' ::
      (", fillcolor=\"".toList ++ (colors.fill.toList ++ '"' ::
        (", style=\"".toList ++ ("rounded,filled".toList ++ '"' :: "];".toList))))) := by
    show (", color=\"" ++ colors.border ++ "\", fillcolor=\"" ++ colors.fill ++ "\", " ++
      "style=\"rounded,filled\"];").toList = _
    simp
  have hstyle : IsPlain "rounded,filled" := by decide
  rw [htext, readColors]
  simp only [readValue_plain _ hborder, readValue_plain _ hfill, readValue_plain _ hstyle,
    Option.bind_eq_bind, Option.bind_some, if_true]

theorem isPlain_layerColors (h : layerColors name = some colors) :
    IsPlain colors.border ∧ IsPlain colors.fill := by
  unfold layerColors at h
  split at h <;> cases h <;> decide

theorem isPlain_nodeColors (f : Figure) (node : Nat) :
    IsPlain (nodeColors f node).border ∧ IsPlain (nodeColors f node).fill := by
  have hplain : IsPlain plainColors.border ∧ IsPlain plainColors.fill := by decide
  unfold nodeColors
  split
  · exact hplain
  · split
    · decide
    · cases hcolors : f.colors node with
      | none => exact hplain
      | some colors =>
          unfold Figure.colors at hcolors
          split at hcolors
          · obtain ⟨name, _, hname⟩ := Option.bind_eq_some_iff.1 hcolors
            exact isPlain_layerColors hname
          · cases hcolors

/-! ### Lines -/

theorem readStatement_eq {line : String} (hid : IsName id)
    (hrest : ∀ c ∈ rest.head?, c.isAlphanum = false)
    (hline : line.toList = "  ".toList ++ (id.toList ++ rest)) :
    readStatement line = (readEdge id rest <|> readNode id rest) := by
  rw [readStatement, hline, readWords_append]
  simp only [Option.bind_eq_bind, Option.bind_some, readName_append hid hrest]

theorem readStatement_node (hid : IsName id)
    (hcolors : IsPlain colors.border ∧ IsPlain colors.fill) :
    readStatement (Line.node id label colors).text = some (.node id label) := by
  have hline : (Line.node id label colors).text.toList = "  ".toList ++ (id.toList ++
      (" [label=\"".toList ++ ((escape label).toList ++ '"' :: (boxEnding colors).toList))) := by
    show ("  " ++ id ++ " " ++ boxAttributes label colors).toList = _
    simp [boxAttributes_eq]
  have hedge : readEdge id (" [label=\"".toList ++
      ((escape label).toList ++ '"' :: (boxEnding colors).toList)) = none := by
    simp [readEdge, readWords, List.dropPrefix?]
  rw [readStatement_eq hid (by simp) hline, hedge, readNode, readValue_append]
  simp [readColors_boxEnding hcolors.1 hcolors.2]

theorem readStatement_edge (hsource : IsName source) (htarget : IsName target) :
    readStatement (Line.edge source target kind).text = some (.edge source target kind) := by
  have hline : (Line.edge source target kind).text.toList = "  ".toList ++ (source.toList ++
      (" -> ".toList ++ (target.toList ++ (" ".toList ++ (edgeAttributes kind).toList)))) := by
    show ("  " ++ source ++ " -> " ++ target ++ " " ++ edgeAttributes kind).toList = _
    simp
  have hend : ∀ c ∈ (" ".toList ++ (edgeAttributes kind).toList).head?, c.isAlphanum = false := by
    simp
  rw [readStatement_eq hsource (by simp) hline, readEdge, readWords_append]
  simp only [Option.bind_eq_bind, Option.bind_some, readName_append htarget hend,
    readKind_edgeAttributes]
  rfl

theorem readStatement_of_no_indent {line : String} (h : readWords "  " line.toList = none) :
    readStatement line = none := by
  rw [readStatement, h]
  rfl

theorem readStatement_of_no_name {line : String} (hline : line.toList = "  ".toList ++ cs)
    (hcs : ∀ c ∈ cs.head?, c.isAlphanum = false) : readStatement line = none := by
  rw [readStatement, hline, readWords_append]
  simp only [Option.bind_eq_bind, Option.bind_some, readName_eq_none hcs, Option.bind_none]

theorem readStatement_headLines (f : Figure) :
    ∀ line ∈ headLines f, readStatement line.text = none := by
  have htitle : readStatement (Line.graph f.options.title).text = none := by
    refine readStatement_of_no_indent ?_
    show readWords "  " ("digraph \"" ++ escape f.options.title ++ "\" \x7b").toList = none
    simp [readWords, List.dropPrefix?]
  simp only [headLines, List.forall_mem_cons, htitle, true_and]
  decide

theorem readStatement_legendLines (f : Figure) :
    ∀ line ∈ legendLines f, readStatement line.text = none := by
  have hentry : ∀ index name colors,
      readStatement (Line.legendEntry index name colors).text = none := by
    intro index name colors
    have hline : (Line.legendEntry index name colors).text.toList = "  ".toList ++
        ("  legend".toList ++ (toString index ++ " " ++ boxAttributes name colors).toList) := by
      show ("    legend" ++ toString index ++ " " ++ boxAttributes name colors).toList = _
      simp
    exact readStatement_of_no_name hline (by simp)
  unfold legendLines
  split
  · refine List.forall_mem_append.2 ⟨List.forall_mem_append.2 ⟨by decide, ?_⟩, by decide⟩
    intro line hline
    obtain ⟨entry, _, rfl⟩ := List.mem_map.1 hline
    exact hentry entry.2 entry.1 _
  · simp

end Dot

/-! ## Mermaid -/

namespace Mermaid

/-- The kind of an edge by its arrow. -/
def kindOfArrow : String → Option EdgeKind
  | "-->" => some .normal
  | "-.->|cycle|" => some .cycle
  | "-.->|violation|" => some .violation
  | _ => none

/-- Reads the mention of a node: its name, and its label between quotes. -/
def readMention (cs : List Char) : Option (String × String × List Char) := do
  let (id, rest) ← readName cs
  let rest ← readWords "[\"" rest
  let (label, rest) := rest.span (· ≠ '"')
  let rest ← readWords "\"]" rest
  return (id, String.ofList label, rest)

/-- Reads an edge behind its source, to the end of its line. -/
def readEdge (source : String) (cs : List Char) : Option Statement := do
  let (arrow, rest) := (← readWords " " cs).span (· ≠ ' ')
  let kind ← kindOfArrow (String.ofList arrow)
  let (target, _, rest) ← readMention (← readWords " " rest)
  if rest = [] then some (.edge source target kind) else none

/-- Reads the line of a statement: a node alone, or an edge. -/
def readStatement (line : String) : Option Statement := do
  let (id, label, rest) ← readMention (← readWords "  " line.toList)
  if rest = [] then some (.node id label) else readEdge id rest

/-! ### Mentions and arrows -/

theorem quote_notMem_label (label : String) :
    '"' ∉ (Text.expand escapeChar label).toList := by
  rw [Text.expand, String.toList_ofList, List.mem_flatMap]
  rintro ⟨c, _, hc⟩
  unfold escapeChar at hc
  split at hc
  · revert hc
    decide
  · rename_i hne
    exact hne (List.mem_singleton.1 hc).symm

theorem readMention_append {mention : Mention} (h : IsName mention.id) (rest : List Char) :
    readMention (mention.text.toList ++ rest) =
      some (mention.id, Text.expand escapeChar mention.label, rest) := by
  have htext : mention.text.toList ++ rest = mention.id.toList ++ ("[\"".toList ++
      ((Text.expand escapeChar mention.label).toList ++ ("\"]".toList ++ rest))) := by
    simp [Mention.text]
  have hlabel : ∀ c ∈ (Text.expand escapeChar mention.label).toList, decide (c ≠ '"') = true := by
    intro c hc
    refine decide_eq_true ?_
    rintro rfl
    exact quote_notMem_label mention.label hc
  rw [htext, readMention, readName_append h (by simp)]
  simp only [Option.bind_eq_bind, Option.bind_some, readWords_append]
  rw [Text.span_append hlabel (by simp)]
  simp only [readWords_append, Option.bind_some, String.ofList_toList]
  rfl

theorem kindOfArrow_arrow (kind : EdgeKind) :
    kindOfArrow (arrow kind) = some kind ∧ (arrow kind).toList.all (· ≠ ' ') = true := by
  cases kind <;> decide

/-! ### Lines -/

theorem readStatement_node {mention : Mention} (h : IsName mention.id) :
    readStatement (Line.node mention).text =
      some (.node mention.id (Text.expand escapeChar mention.label)) := by
  have hline : (Line.node mention).text.toList = "  ".toList ++ (mention.text.toList ++ []) := by
    show ("  " ++ mention.text).toList = _
    simp
  rw [readStatement, hline, readWords_append]
  simp only [Option.bind_eq_bind, Option.bind_some, readMention_append h, if_true]

theorem readStatement_edge {source target : Mention} (hsource : IsName source.id)
    (htarget : IsName target.id) :
    readStatement (Line.edge source target kind).text = some (.edge source.id target.id kind) := by
  have hline : (Line.edge source target kind).text.toList = "  ".toList ++ (source.text.toList ++
      (" ".toList ++ ((arrow kind).toList ++ (" ".toList ++ (target.text.toList ++ []))))) := by
    show ("  " ++ source.text ++ " " ++ arrow kind ++ " " ++ target.text).toList = _
    simp
  obtain ⟨hkind, harrow⟩ := kindOfArrow_arrow kind
  rw [readStatement, hline, readWords_append]
  simp only [Option.bind_eq_bind, Option.bind_some, readMention_append hsource]
  rw [if_neg (by simp), readEdge, readWords_append]
  simp only [Option.bind_eq_bind, Option.bind_some]
  rw [Text.span_append (List.all_eq_true.1 harrow) (by simp)]
  simp only [String.ofList_toList, hkind, Option.bind_some, readWords_append,
    readMention_append htarget, if_true]

theorem readStatement_chart (direction : String) :
    readStatement (Line.chart direction).text = none := by
  have hwords : readWords "  " (Line.chart direction).text.toList = none := by
    show readWords "  " ("graph " ++ direction).toList = none
    simp [readWords, List.dropPrefix?]
  rw [readStatement, hwords]
  rfl

theorem readStatement_style (id : String) (colors : Colors) :
    readStatement (Line.style id colors).text = none := by
  have hline : (Line.style id colors).text.toList = "  ".toList ++ ("style".toList ++
      (" " ++ id ++ " fill:" ++ colors.fill ++ ",stroke:" ++ colors.border ++
        ",stroke-width:2px").toList) := by
    show ("  style " ++ id ++ " fill:" ++ colors.fill ++ ",stroke:" ++ colors.border ++
      ",stroke-width:2px").toList = _
    simp
  have hname : IsName "style" := ⟨by decide, by decide⟩
  rw [readStatement, hline, readWords_append]
  simp only [Option.bind_eq_bind, Option.bind_some, readMention]
  rw [readName_append hname (by simp)]
  simp [readWords, List.dropPrefix?]

theorem readStatement_styleLines (f : Figure) :
    ∀ line ∈ styleLines f, readStatement line.text = none := by
  unfold styleLines
  split
  · refine List.forall_mem_append.2 ⟨by decide, fun line hline => ?_⟩
    obtain ⟨u, _, hline⟩ := List.mem_filterMap.1 hline
    obtain ⟨colors, _, rfl⟩ := Option.map_eq_some_iff.1 hline
    exact readStatement_style _ colors
  · simp

end Mermaid

end LayerLint.Figure
