import LayerLint.Toml.Quoted
import LayerLint.Toml.Scalar
import LayerLint.Toml.Tree

/-!
# Reading TOML

Documents of TOML 1.0. Arrays and inline tables nest at most seventy-nine levels deep, and a dotted
key has at most seventy-nine parts.
-/

namespace LayerLint.Toml

/-- The greatest number of levels and of key parts. -/
def nestingLimit : Nat := 79

/-- The text after the blanks of its line. -/
def skipWhite (cs : List Char) : List Char :=
  cs.dropWhile isWhite

/-- Skips a comment, if there is one. -/
def skipComment : List Char → List Char
  | '#' :: rest => rest.dropWhile isPlain
  | cs => cs

/-- Reads the rest of a line: blanks, a comment, and a line feed or the end of the text. -/
def endLine (cs : List Char) : Option (List Char) :=
  match skipComment (skipWhite cs) with
  | [] => some []
  | rest => afterNewline? rest

/-- Skips blanks, comments and line feeds; the bound counts the lines that remain. -/
def skipLinesWithin : Nat → List Char → List Char
  | 0, cs => cs
  | bound + 1, cs =>
    match afterNewline? (skipComment (skipWhite cs)) with
    | some rest => skipLinesWithin bound rest
    | none => skipWhite cs

/-- Skips blanks, comments and line feeds. -/
def skipLines (cs : List Char) : List Char :=
  skipLinesWithin cs.length cs

/-! ## Keys -/

/-- Whether a character may stand in a key without quotes. -/
def isBareKeyChar (c : Char) : Bool :=
  c.isAlphanum || c == '_' || c == '-'

/-- Reads one part of a key. -/
def readKeyPart (cs : List Char) : Option (String × List Char) :=
  match cs with
  | '"' :: rest => (readBasic rest).map fun (key, rest) => (String.ofList key, rest)
  | '\'' :: rest => (readLiteral [] rest).map fun (key, rest) => (String.ofList key, rest)
  | _ =>
    match cs.span isBareKeyChar with
    | ([], _) => none
    | (key, rest) => some (String.ofList key, rest)

/-- Reads a key with blanks around its parts; the bound counts the parts that remain. -/
def readKeyWithin : Nat → List Char → Option (List String × List Char)
  | 0, _ => none
  | bound + 1, cs => do
    let (part, rest) ← readKeyPart (skipWhite cs)
    match skipWhite rest with
    | '.' :: rest =>
      let (parts, rest) ← readKeyWithin bound rest
      return (part :: parts, rest)
    | rest => return ([part], rest)

/-- Reads a key as the path in front of its last part and that part. -/
def readKey (cs : List Char) : Option ((List String × String) × List Char) := do
  let (parts, rest) ← readKeyWithin nestingLimit cs
  let last ← parts.getLast?
  return ((parts.dropLast, last), rest)

/-! ## Values -/

mutual

/-- Reads a value; the bound counts the nested reads that remain, `levels` the levels. -/
def readValue : Nat → (levels : Nat) → List Char → Option (Value × List Char)
  | 0, _, _ => none
  | bound + 1, levels, cs =>
    match cs, levels with
    | '[' :: rest, levels + 1 => readItems bound levels [] rest
    | '{' :: rest, levels + 1 =>
      match skipWhite rest with
      | '}' :: rest => some (.table [], rest)
      | rest => readPairs bound levels [] rest
    | '"' :: _, _ | '\'' :: _, _ => (readString cs).map fun (text, rest) => (.string text, rest)
    | _, _ => readWord cs

/-- Reads the rest of an array; the items read before come reversed. -/
def readItems : Nat → (levels : Nat) → List Value → List Char → Option (Value × List Char)
  | 0, _, _, _ => none
  | bound + 1, levels, done, cs =>
    match skipLines cs with
    | ']' :: rest => some (.array done.reverse, rest)
    | cs => do
      let (item, rest) ← readValue bound levels cs
      match skipLines rest with
      | ',' :: rest => readItems bound levels (item :: done) rest
      | ']' :: rest => some (.array (item :: done).reverse, rest)
      | _ => none

/-- Reads the rest of an inline table, one key at least. -/
def readPairs : Nat → (levels : Nat) → Fields → List Char → Option (Value × List Char)
  | 0, _, _, _ => none
  | bound + 1, levels, fields, cs => do
    let ((path, key), rest) ← readKey cs
    let '=' :: rest := rest | none
    let (value, rest) ← readValue bound levels (skipWhite rest)
    let fields ← putDotted path key value fields
    match skipWhite rest with
    | ',' :: rest => readPairs bound levels fields rest
    | '}' :: rest => some (.table (finishFields fields), rest)
    | _ => none

end

/-! ## Documents -/

/-- A document under construction. -/
structure Draft where
  root : Fields
  /-- The path of the table that is being filled. -/
  current : List String

/-- Reads a header after its opening brackets. -/
def readHeader (opening : List String → String → Fields → Option Fields) (closing : List Char)
    (draft : Draft) (cs : List Char) : Option (Draft × List Char) := do
  let ((path, key), rest) ← readKey cs
  let rest ← closing.isPrefixOf? rest
  let root ← opening path key draft.root
  return (⟨root, path ++ [key]⟩, rest)

/-- Reads a key with its value. -/
def readKeyValue (draft : Draft) (cs : List Char) : Option (Draft × List Char) := do
  let ((path, key), rest) ← readKey cs
  let '=' :: rest := rest | none
  let rest := skipWhite rest
  let (value, rest) ← readValue (2 * rest.length + 2) nestingLimit rest
  let root ← descend false (fun _ fields => putDotted path key value fields) draft.current .header
    draft.root
  return ({ draft with root }, rest)

/-- Reads what stands on a line, if anything does. -/
def readLine (draft : Draft) (cs : List Char) : Option (Draft × List Char) :=
  match cs with
  | [] | '#' :: _ | '\n' :: _ | '\r' :: _ => some (draft, cs)
  | '[' :: '[' :: rest => readHeader openRow [']', ']'] draft rest
  | '[' :: rest => readHeader openTable [']'] draft rest
  | _ => readKeyValue draft cs

/-- Reads the lines of a document; the bound counts the lines that remain. -/
def readDocument : Nat → Draft → List Char → Option Draft
  | 0, _, _ => none
  | bound + 1, draft, cs => do
    let (draft, rest) ← readLine draft (skipWhite cs)
    match ← endLine rest with
    | [] => return draft
    | rest => readDocument bound draft rest

/-- The fields of the document that a text spells. A leading byte order mark does not count. -/
def parse? (text : String) : Option (Assoc Value) := do
  let cs := match text.toList with
    | '\uFEFF' :: rest => rest
    | cs => cs
  let draft ← readDocument (cs.length + 1) ⟨[], []⟩ cs
  return finishFields draft.root

end LayerLint.Toml
