import LayerLint.Text.Digits
import LayerLint.Toml.Value

/-!
# Words in TOML

Truth values, numbers, dates and times, each spelled by a word without blanks. A date and its time
may also be two words.
-/

namespace LayerLint.Toml

/-- The digits of a number in which single underscores may stand between digits. -/
def digitRun? (isDigit : Char → Bool) : List Char → Option (List Char)
  | [] => none
  | [c] => if isDigit c then some [c] else none
  | c :: '_' :: rest => if isDigit c then (digitRun? isDigit rest).map (c :: ·) else none
  | c :: rest => if isDigit c then (digitRun? isDigit rest).map (c :: ·) else none

/-- Whether a character is a hexadecimal digit. -/
def isHexDigit (c : Char) : Bool :=
  (Text.hexDigit? c).isSome

/-- Whether a character is an octal digit. -/
def isOctalDigit (c : Char) : Bool :=
  c.isDigit && c != '8' && c != '9'

/-- Whether a character is a binary digit. -/
def isBinaryDigit (c : Char) : Bool :=
  c == '0' || c == '1'

/-- Cuts a sign off. -/
def cutSign : List Char → Bool × List Char
  | '-' :: rest => (true, rest)
  | '+' :: rest => (false, rest)
  | cs => (false, cs)

/-- The digits of a decimal integer, which start with a zero only when it stands alone. -/
def wholeDigits? (cs : List Char) : Option (List Char) := do
  let digits ← digitRun? Char.isDigit cs
  if digits.length > 1 && digits.head? == some '0' then none else some digits

/-- The integer that a word spells. -/
def integerWord? (word : List Char) : Option Value := do
  match word with
  | '0' :: 'x' :: rest => Value.ofInteger? (← Text.hex? (← digitRun? isHexDigit rest))
  | '0' :: 'o' :: rest =>
    Value.ofInteger? (Nat.ofDigitChars 8 (← digitRun? isOctalDigit rest) 0)
  | '0' :: 'b' :: rest =>
    Value.ofInteger? (Nat.ofDigitChars 2 (← digitRun? isBinaryDigit rest) 0)
  | _ =>
    let (negative, rest) := cutSign word
    let n := Text.decimal (← wholeDigits? rest)
    Value.ofInteger? (if negative then -(Int.ofNat n) else Int.ofNat n)

/-- The exponent that ends a word, if it has one; otherwise nothing may be left. -/
def exponentWord? : List Char → Option Int
  | [] => some 0
  | e :: rest =>
    if e = 'e' ∨ e = 'E' then do
      let (negative, rest) := cutSign rest
      let n := Text.decimal (← digitRun? Char.isDigit rest)
      return if negative then -(Int.ofNat n) else Int.ofNat n
    else none

/-- Whether a character may stand among the digits of a number. -/
def isDigitOrGap (c : Char) : Bool :=
  c.isDigit || c == '_'

/-- The number nearest to a decimal; a number beyond the greatest is refused. -/
def floatValue? (negative : Bool) (digits : List Char) (exponent : Int) : Option Value :=
  let x := Binary64.ofDecimal negative (Text.decimal digits) exponent
  if x = Binary64.infinity false then none else some (.float x)

/-- The floating point number that a word spells. -/
def floatWord? (word : List Char) : Option Value := do
  let (negative, rest) := cutSign word
  if rest = ['i', 'n', 'f'] then return .float (.infinity negative)
  if rest = ['n', 'a', 'n'] then return .float (.notANumber negative)
  let whole ← wholeDigits? (rest.takeWhile isDigitOrGap)
  match rest.dropWhile isDigitOrGap with
  | '.' :: rest =>
    let fraction ← digitRun? Char.isDigit (rest.takeWhile isDigitOrGap)
    let exponent ← exponentWord? (rest.dropWhile isDigitOrGap)
    floatValue? negative (whole ++ fraction) (exponent - Int.ofNat fraction.length)
  | [] => none
  | rest => floatValue? negative whole (← exponentWord? rest)

/-- The value that a word spells. -/
def wordValue? (word : List Char) : Option Value :=
  if word = ['t', 'r', 'u', 'e'] then some (.boolean true)
  else if word = ['f', 'a', 'l', 's', 'e'] then some (.boolean false)
  else (dateTime? word).map .dateTime <|> floatWord? word <|> integerWord? word

/-- Whether a character may stand in a word. -/
def isWordChar (c : Char) : Bool :=
  c.isAlphanum || c == '_' || c == '+' || c == '-' || c == '.' || c == ':'

/-- Whether a word spells a date. -/
def isDateWord (word : List Char) : Bool :=
  match readDate word with
  | some (_, []) => true
  | _ => false

/-- Reads the value of a word. After a date, a blank may stand between it and its time. -/
def readWord (cs : List Char) : Option (Value × List Char) :=
  let word := cs.takeWhile isWordChar
  let rest := cs.dropWhile isWordChar
  match rest with
  | ' ' :: c :: after =>
    if c.isDigit && isDateWord word then
      let time := (c :: after).takeWhile isWordChar
      (wordValue? (word ++ ' ' :: time)).map (·, (c :: after).dropWhile isWordChar)
    else (wordValue? word).map (·, rest)
  | _ => (wordValue? word).map (·, rest)

end LayerLint.Toml
