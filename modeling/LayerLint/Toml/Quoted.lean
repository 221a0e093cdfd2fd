import LayerLint.Text.Digits

/-!
# Quoted text in TOML

The four kinds of strings: with escapes or literal, on one line or on several. Each reader starts
after the opening quotes; the characters read before come reversed.
-/

namespace LayerLint.Toml

/-- Whether a character may stand in a comment or a string: anything but the control characters,
of which only the tab may. -/
def isPlain (c : Char) : Bool :=
  let n := c.toNat
  n == 0x9 || (0x20 ≤ n && n ≤ 0x7E) || 0x80 ≤ n

/-- Whether a character is a blank within a line. -/
def isWhite (c : Char) : Bool :=
  c == ' ' || c == '\t'

/-- The character that a one-letter escape stands for. -/
def escaped? : Char → Option Char
  | '"' => some '"'
  | '\\' => some '\\'
  | 'b' => some '\x08'
  | 'f' => some '\x0c'
  | 'n' => some '\n'
  | 'r' => some '\r'
  | 't' => some '\t'
  | _ => none

/-- The character with a number in hexadecimal digits. -/
def scalar? (digits : List Char) : Option Char := do
  let n ← Text.hex? digits
  if n < 0xD800 ∨ (0xE000 ≤ n ∧ n < 0x110000) then some (Char.ofNat n) else none

/-- Reads an escape after its backslash. -/
def readEscape : List Char → Option (Char × List Char)
  | 'u' :: rest => (scalar? (rest.take 4)).bind fun c =>
    if rest.length < 4 then none else some (c, rest.drop 4)
  | 'U' :: rest => (scalar? (rest.take 8)).bind fun c =>
    if rest.length < 8 then none else some (c, rest.drop 8)
  | e :: rest => (escaped? e).map (·, rest)
  | [] => none

/-- Reads a string on one line; the bound counts the characters that remain. -/
def readBasicWithin : Nat → List Char → List Char → Option (List Char × List Char)
  | 0, _, _ => none
  | _ + 1, _, [] => none
  | _ + 1, done, '"' :: rest => some (done.reverse, rest)
  | bound + 1, done, '\\' :: rest => do
    let (c, rest) ← readEscape rest
    readBasicWithin bound (c :: done) rest
  | bound + 1, done, c :: rest =>
    if isPlain c then readBasicWithin bound (c :: done) rest else none

/-- Reads a string on one line. -/
def readBasic (cs : List Char) : Option (List Char × List Char) :=
  readBasicWithin cs.length [] cs

/-- Reads a literal string on one line. -/
def readLiteral (done : List Char) : List Char → Option (List Char × List Char)
  | [] => none
  | '\'' :: rest => some (done.reverse, rest)
  | c :: rest => if isPlain c then readLiteral (c :: done) rest else none

/-- The text after the line feed it starts with, if it starts with one. -/
def afterNewline? : List Char → Option (List Char)
  | '\n' :: rest => some rest
  | '\r' :: '\n' :: rest => some rest
  | _ => none

/-- Whether nothing but blanks stands on the rest of the line. -/
def endsLine (cs : List Char) : Bool :=
  (afterNewline? (cs.dropWhile isWhite)).isSome

/-- Reads a string on several lines; the bound counts the characters that remain. Up to two quotes
in a row belong to the text, also right in front of the closing three. A backslash at the end of a
line joins the lines: `joining` is set until the next character that is not blank. -/
def readLinesWithin : Nat → (joining : Bool) → List Char → List Char →
    Option (List Char × List Char)
  | 0, _, _, _ => none
  | _ + 1, _, _, [] => none
  | _ + 1, _, done, '"' :: '"' :: '"' :: '"' :: '"' :: rest =>
    some (('"' :: '"' :: done).reverse, rest)
  | _ + 1, _, done, '"' :: '"' :: '"' :: '"' :: rest => some (('"' :: done).reverse, rest)
  | _ + 1, _, done, '"' :: '"' :: '"' :: rest => some (done.reverse, rest)
  | bound + 1, joining, done, '\r' :: '\n' :: rest =>
    readLinesWithin bound joining (if joining then done else '\n' :: done) rest
  | bound + 1, joining, done, '\n' :: rest =>
    readLinesWithin bound joining (if joining then done else '\n' :: done) rest
  | bound + 1, _, done, '\\' :: rest =>
    if endsLine rest then readLinesWithin bound true done rest
    else do
      let (c, rest) ← readEscape rest
      readLinesWithin bound false (c :: done) rest
  | bound + 1, joining, done, c :: rest =>
    if joining && isWhite c then readLinesWithin bound true done rest
    else if isPlain c then readLinesWithin bound false (c :: done) rest
    else none

/-- Reads a string on several lines; a line feed right after the opening does not count. -/
def readLines (cs : List Char) : Option (List Char × List Char) :=
  let cs := (afterNewline? cs).getD cs
  readLinesWithin cs.length false [] cs

/-- Reads a literal string on several lines. -/
def readLiteralLines (done : List Char) : List Char → Option (List Char × List Char)
  | [] => none
  | '\'' :: '\'' :: '\'' :: '\'' :: '\'' :: rest => some (('\'' :: '\'' :: done).reverse, rest)
  | '\'' :: '\'' :: '\'' :: '\'' :: rest => some (('\'' :: done).reverse, rest)
  | '\'' :: '\'' :: '\'' :: rest => some (done.reverse, rest)
  | '\r' :: '\n' :: rest => readLiteralLines ('\n' :: done) rest
  | '\n' :: rest => readLiteralLines ('\n' :: done) rest
  | c :: rest => if isPlain c then readLiteralLines (c :: done) rest else none

/-- Reads a string of any kind. -/
def readString : List Char → Option (String × List Char)
  | '"' :: '"' :: '"' :: rest => (readLines rest).map fun (cs, rest) => (String.ofList cs, rest)
  | '"' :: rest => (readBasic rest).map fun (cs, rest) => (String.ofList cs, rest)
  | '\'' :: '\'' :: '\'' :: rest =>
    (readLiteralLines [] ((afterNewline? rest).getD rest)).map fun (cs, rest) =>
      (String.ofList cs, rest)
  | '\'' :: rest => (readLiteral [] rest).map fun (cs, rest) => (String.ofList cs, rest)
  | _ => none

end LayerLint.Toml
