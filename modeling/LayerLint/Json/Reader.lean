import LayerLint.Json.Basic

/-!
# Reading JSON

A strict reader: one value with blanks around it, no comments, no trailing commas, no byte order
mark. Each reader returns what it read and the rest of the text.
-/

namespace LayerLint.Json

/-- Whether a character may stand between the parts of a value. -/
def isSpace (c : Char) : Bool :=
  c == ' ' || c == '\t' || c == '\n' || c == '\r'

/-- The text after its leading spaces. -/
def skipSpaces (cs : List Char) : List Char :=
  cs.dropWhile isSpace

/-! ## Strings -/

/-- A part of a string: a character, or a sixteen-bit unit given by its number. -/
inductive Piece where
  | char (c : Char)
  | unit (n : Nat)

/-- The character that a one-letter escape stands for. -/
def escaped? : Char → Option Char
  | '"' => some '"'
  | '\\' => some '\\'
  | '/' => some '/'
  | 'b' => some '\x08'
  | 'f' => some '\x0c'
  | 'n' => some '\n'
  | 'r' => some '\r'
  | 't' => some '\t'
  | _ => none

/-- Reads the pieces of a string up to its closing quote; the pieces read before come reversed. -/
def readPieces (done : List Piece) : List Char → Option (List Piece × List Char)
  | [] => none
  | '"' :: rest => some (done.reverse, rest)
  | '\\' :: 'u' :: a :: b :: c :: d :: rest => do
    let n ← Text.hex? [a, b, c, d]
    readPieces (.unit n :: done) rest
  | '\\' :: e :: rest => do
    let c ← escaped? e
    readPieces (.char c :: done) rest
  | c :: rest => if c.toNat < 0x20 then none else readPieces (.char c :: done) rest

/-- Whether a unit is the first of a pair. -/
def isLeading (n : Nat) : Bool :=
  0xD800 ≤ n && n < 0xDC00

/-- Whether a unit is the second of a pair. -/
def isTrailing (n : Nat) : Bool :=
  0xDC00 ≤ n && n < 0xE000

/-- The text spelled by pieces, reversed; nothing when a surrogate stands alone. -/
def spell (done : List Char) : List Piece → Option (List Char)
  | [] => some done
  | .char c :: rest => spell (c :: done) rest
  | .unit n :: .unit m :: rest =>
    if isLeading n && isTrailing m then
      spell (Char.ofNat (0x10000 + 0x400 * (n - 0xD800) + (m - 0xDC00)) :: done) rest
    else if isLeading n || isTrailing n then none
    else spell (Char.ofNat n :: done) (.unit m :: rest)
  | .unit n :: rest =>
    if isLeading n || isTrailing n then none else spell (Char.ofNat n :: done) rest

/-- Reads a string after its opening quote. The text is missing when a surrogate stands alone. -/
def readString (cs : List Char) : Option (Option String × List Char) := do
  let (pieces, rest) ← readPieces [] cs
  return ((spell [] pieces).map fun text => String.ofList text.reverse, rest)

/-! ## Numbers -/

/-- Cuts the leading digits off, of which there must be one. -/
def readDigits (cs : List Char) : Option (List Char × List Char) :=
  match cs.span Char.isDigit with
  | ([], _) => none
  | cut => some cut

/-- Reads the digits before the point: a single zero, or digits that start with another. -/
def readWhole : List Char → Option (List Char × List Char)
  | '0' :: rest => some (['0'], rest)
  | cs => readDigits cs

/-- Reads the point and the digits after it, if there is a point. -/
def readFraction : List Char → Option (List Char × List Char)
  | '.' :: rest => do
    let (digits, rest) ← readDigits rest
    return ('.' :: digits, rest)
  | cs => some ([], cs)

/-- Reads an exponent, if there is one. -/
def readExponent : List Char → Option (List Char × List Char)
  | e :: rest =>
    if e = 'e' ∨ e = 'E' then
      match rest with
      | '+' :: rest => (readDigits rest).map fun (digits, rest) => (e :: '+' :: digits, rest)
      | '-' :: rest => (readDigits rest).map fun (digits, rest) => (e :: '-' :: digits, rest)
      | _ => (readDigits rest).map fun (digits, rest) => (e :: digits, rest)
    else some ([], e :: rest)
  | [] => some ([], [])

/-- Reads a number and keeps its spelling. -/
def readNumber (cs : List Char) : Option (Json × List Char) := do
  let (sign, cs) := match cs with
    | '-' :: rest => (['-'], rest)
    | _ => ([], cs)
  let (whole, cs) ← readWhole cs
  let (fraction, cs) ← readFraction cs
  let (exponent, cs) ← readExponent cs
  return (.num (String.ofList (sign ++ whole ++ fraction ++ exponent)), cs)

/-! ## Values -/

/-- An object from its fields; a field name that spells no text spoils it. -/
def ofFields (fields : List (Option String × Json)) : Json :=
  match fields.mapM fun (name, value) => name.map (·, value) with
  | some fields => .obj fields
  | none => .garbled

mutual

/-- Reads a value; the bound counts the nested reads that remain. -/
def readValue : Nat → List Char → Option (Json × List Char)
  | 0, _ => none
  | bound + 1, cs =>
    match skipSpaces cs with
    | '{' :: rest =>
      match skipSpaces rest with
      | '}' :: rest => some (.obj [], rest)
      | rest => readFields bound [] rest
    | '[' :: rest =>
      match skipSpaces rest with
      | ']' :: rest => some (.arr [], rest)
      | rest => readItems bound [] rest
    | '"' :: rest => (readString rest).map fun (text, rest) => (text.elim .garbled .str, rest)
    | 't' :: 'r' :: 'u' :: 'e' :: rest => some (.bool true, rest)
    | 'f' :: 'a' :: 'l' :: 's' :: 'e' :: rest => some (.bool false, rest)
    | 'n' :: 'u' :: 'l' :: 'l' :: rest => some (.null, rest)
    | rest => readNumber rest

/-- Reads the rest of an array, one item at least; the items read before come reversed. -/
def readItems : Nat → List Json → List Char → Option (Json × List Char)
  | 0, _, _ => none
  | bound + 1, done, cs => do
    let (item, rest) ← readValue bound cs
    match skipSpaces rest with
    | ',' :: rest => readItems bound (item :: done) rest
    | ']' :: rest => some (.arr (item :: done).reverse, rest)
    | _ => none

/-- Reads the rest of an object, one field at least; the fields read before come reversed. -/
def readFields : Nat → List (Option String × Json) → List Char → Option (Json × List Char)
  | 0, _, _ => none
  | bound + 1, done, cs => do
    let '"' :: rest := skipSpaces cs | none
    let (name, rest) ← readString rest
    let ':' :: rest := skipSpaces rest | none
    let (value, rest) ← readValue bound rest
    match skipSpaces rest with
    | ',' :: rest => readFields bound ((name, value) :: done) rest
    | '}' :: rest => some (ofFields ((name, value) :: done).reverse, rest)
    | _ => none

end

/-- Reads a text that holds one value and nothing else. -/
def parse? (text : String) : Option Json := do
  let cs := text.toList
  -- Two nested reads take at least one character, so this bound is never met.
  let (value, rest) ← readValue (2 * cs.length + 2) cs
  if (skipSpaces rest).isEmpty then some value else none

end LayerLint.Json
