import LayerLint.Figure.Dot

/-!
# Quoted texts in DOT

A title, a label or the name of a layer stands between quotes, whatever characters it holds. A
reader gets it back unchanged and goes on right behind the closing quote.
-/

namespace LayerLint.Figure.Dot

/-- Reads a quoted string after its opening quote: a backslash stands for the character after it,
and the first quote without one closes the string. -/
def readQuoted : List Char → Option (List Char × List Char)
  | [] => none
  | '"' :: rest => some ([], rest)
  | '\\' :: c :: rest => (readQuoted rest).map fun (text, after) => (c :: text, after)
  | c :: rest => (readQuoted rest).map fun (text, after) => (c :: text, after)

/-! ## One character -/

/-- A character is behind a backslash, or it is neither a backslash nor a quote. -/
theorem escapeChar_cases (c : Char) :
    escapeChar c = ['\\', c] ∨ c ≠ '\\' ∧ c ≠ '"' ∧ escapeChar c = [c] := by
  by_cases hback : c = '\\'
  · subst hback
    exact Or.inl rfl
  · by_cases hquote : c = '"'
    · subst hquote
      exact Or.inl rfl
    · exact Or.inr ⟨hback, hquote, by simp [escapeChar, hback, hquote]⟩

theorem readQuoted_escapeChar (c : Char) (cs : List Char) :
    readQuoted (escapeChar c ++ cs) =
      (readQuoted cs).map fun (text, after) => (c :: text, after) := by
  rcases escapeChar_cases c with hescape | ⟨hback, hquote, hescape⟩
  · rw [hescape]
    rfl
  · rw [hescape, List.singleton_append, readQuoted]
    · exact hquote
    · exact fun _ _ heq _ => hback heq

/-! ## Texts -/

theorem toList_escape (text : String) :
    (escape text).toList = text.toList.flatMap escapeChar := by
  simp [escape, Text.expand]

@[simp]
theorem readQuoted_escape (text : String) (rest : List Char) :
    readQuoted ((escape text).toList ++ '"' :: rest) = some (text.toList, rest) := by
  rw [toList_escape]
  induction text.toList with
  | nil => rfl
  | cons c cs ih =>
      rw [List.flatMap_cons, List.append_assoc, readQuoted_escapeChar, ih]
      rfl

theorem escape_injective : Function.Injective escape := by
  intro text text' heq
  have hread := readQuoted_escape text []
  rw [heq, readQuoted_escape text' []] at hread
  exact String.toList_inj.1 (Prod.mk.inj (Option.some.inj hread)).1.symm

/-- Puts a text in place of a character, everywhere. -/
def replaceAll (c : Char) (replacement : List Char) (text : String) : String :=
  Text.expand (fun d => if d = c then replacement else [d]) text

/-- Backslashes come first: those that then guard the quotes stay single. -/
theorem escape_eq_replaceAll (text : String) :
    escape text = replaceAll '"' ['\\', '"'] (replaceAll '\\' ['\\', '\\'] text) := by
  have hchar : ∀ c, escapeChar c =
      (if c = '\\' then ['\\', '\\'] else [c]).flatMap fun d =>
        if d = '"' then ['\\', '"'] else [d] := by
    intro c
    by_cases hback : c = '\\' <;> simp [escapeChar, hback]
  rw [escape, funext hchar]
  simp [replaceAll, Text.expand, List.flatMap_assoc]

/-! ## Lines -/

/-- Behind these words a line holds the text in quotes. -/
def QuotedBehind (words text line : String) : Prop :=
  ∃ quoted rest : List Char,
    line.toList = words.toList ++ '"' :: quoted ∧ readQuoted quoted = some (text.toList, rest)

theorem quotedBehind_of_eq {words text line : String} (rest : String)
    (h : line = words ++ "\"" ++ escape text ++ "\"" ++ rest) : QuotedBehind words text line := by
  refine ⟨(escape text).toList ++ '"' :: rest.toList, rest.toList, ?_, readQuoted_escape text _⟩
  simp [h]

theorem quotedBehind_graph (title : String) :
    QuotedBehind "digraph " title (Line.graph title).text := by
  have hopen : "digraph \"" = "digraph " ++ "\"" := by decide
  have hclose : "\" \x7b" = "\"" ++ " \x7b" := by decide
  apply quotedBehind_of_eq " \x7b"
  show "digraph \"" ++ escape title ++ "\" \x7b" = _
  rw [hopen, hclose, ← String.append_assoc]

/-- What stands behind the label of a box. -/
def boxEnding (colors : Colors) : String :=
  s!", color=\"{colors.border}\", fillcolor=\"{colors.fill}\", " ++ "style=\"rounded,filled\"];"

theorem boxAttributes_eq (label : String) (colors : Colors) :
    boxAttributes label colors = "[label=" ++ "\"" ++ escape label ++ "\"" ++ boxEnding colors := by
  have hopen : "[label=\"" = "[label=" ++ "\"" := by decide
  have hclose : "\", color=\"" = "\"" ++ ", color=\"" := by decide
  -- The equations of such long texts are slow to make, so the definitions are opened without them.
  delta boxAttributes boxEnding
  simp only [toString, hopen, hclose, String.append_assoc]

theorem quotedBehind_box (words label : String) (colors : Colors) :
    QuotedBehind (words ++ " [label=") label (words ++ " " ++ boxAttributes label colors) := by
  have hlabel : " [label=" = " " ++ "[label=" := by decide
  apply quotedBehind_of_eq (boxEnding colors)
  simp only [boxAttributes_eq, hlabel, String.append_assoc]

/-- Every text is read back from its quotes, and the reader goes on behind them. So no two texts are
written alike, and titles, labels and names of layers stay within the quotes of their lines. -/
theorem quoted_texts_read_back :
    (∀ (text : String) (rest : List Char),
      readQuoted ((escape text).toList ++ '"' :: rest) = some (text.toList, rest)) ∧
    Function.Injective escape ∧
    (∀ text, escape text =
      replaceAll '"' ['\\', '"'] (replaceAll '\\' ['\\', '\\'] text)) ∧
    (∀ title, QuotedBehind "digraph " title (Line.graph title).text) ∧
    (∀ id label colors,
      QuotedBehind s!"  {id} [label=" label (Line.node id label colors).text) ∧
    ∀ index name colors,
      QuotedBehind s!"    legend{index} [label=" name (Line.legendEntry index name colors).text :=
  ⟨readQuoted_escape, escape_injective, escape_eq_replaceAll, quotedBehind_graph,
    fun id => quotedBehind_box s!"  {id}", fun index => quotedBehind_box s!"    legend{index}"⟩

end LayerLint.Figure.Dot
