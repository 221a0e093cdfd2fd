import LayerLint.Binary64
import LayerLint.Json.Basic

/-!
# The values of JSON numbers

A number keeps as many of its leading digits as fit into sixty-four bits. A number with a point or
an exponent, or beyond sixty-four bits, is a floating point number: the kept digits are rounded and
scaled by powers of ten, and each of these steps rounds.
-/

namespace LayerLint.Json

/-! ## Digits -/

/-- Appends digits to a number for as long as it stays below the limit of counts, and gives the
digits that are left over. -/
def appendDigits (n : Nat) : List Char → Nat × List Char
  | [] => (n, [])
  | c :: cs =>
    let longer := Nat.ofDigitChars 10 [c] n
    if longer < countLimit then appendDigits longer cs else (n, c :: cs)

/-- Whether a character opens an exponent. -/
def opensExponent (c : Char) : Bool :=
  c == 'e' || c == 'E'

/-- The exponent at the end of a number. -/
def exponentOf (literal : List Char) : Int :=
  match (literal.dropWhile (!opensExponent ·)).drop 1 with
  | '-' :: digits => -(Int.ofNat (Text.decimal digits))
  | '+' :: digits => Int.ofNat (Text.decimal digits)
  | digits => Int.ofNat (Text.decimal digits)

/-- The kept digits of a number without its sign, and the power of ten they are taken times. Digits
left over in front of the point count as zeros; digits left over behind it are dropped. -/
def scientific (literal : List Char) : Nat × Int :=
  let mantissa := literal.takeWhile (!opensExponent ·)
  let places := (mantissa.dropWhile (· ≠ '.')).drop 1
  let (whole, zeros) := appendDigits 0 (mantissa.takeWhile (· ≠ '.'))
  let (digits, dropped) := appendDigits whole places
  (digits, exponentOf literal + Int.ofNat zeros.length - Int.ofNat (places.length - dropped.length))

/-! ## Floating point -/

/-- The greatest power of ten that numbers are scaled by in one step. -/
def greatestScale : Nat := 308

/-- The magnitude nearest to a power of ten. -/
def powerOfTen (exponent : Nat) : Nat :=
  Binary64.nearest (Nat.pow 10 exponent) 1

/-- A magnitude scaled by a power of ten; none when that is beyond the greatest number. A power that
is too small for one step is applied in several, and `rounds` bounds their number. -/
def scale : (rounds : Nat) → (magnitude : Nat) → (exponent : Int) → Option Nat
  | 0, _, _ => some 0
  | rounds + 1, magnitude, exponent =>
    if exponent.natAbs ≤ greatestScale then
      let power := powerOfTen exponent.natAbs
      if exponent < 0 then some (Binary64.quotient magnitude power)
      else some (Binary64.product magnitude power) |>.filter (· < Binary64.infinityBits)
    else if magnitude = 0 then some 0
    else if 0 ≤ exponent then none
    else
      scale rounds (Binary64.quotient magnitude (powerOfTen greatestScale))
        (exponent + Int.ofNat greatestScale)

/-- Cuts the sign off a number. -/
def cutSign (literal : String) : Bool × List Char :=
  match literal.toList with
  | '-' :: cs => (true, cs)
  | cs => (false, cs)

/-- The magnitude of a number; none when it is beyond the greatest floating point number. Kept
digits scaled down twice are zero, so three rounds are enough. -/
def magnitude? (literal : String) : Option Nat :=
  let (digits, exponent) := scientific (cutSign literal).2
  scale 3 (Binary64.nearest digits 1) exponent

/-- The floating point number that a number spells, if it is in range. -/
def toBinary64? (literal : String) : Option Binary64 :=
  (magnitude? literal).map (Binary64.signed (cutSign literal).1)

/-- Whether a number lies within the range of floating point numbers. -/
def inRange (literal : String) : Bool :=
  (magnitude? literal).isSome

/-! ## Integers -/

/-- The integer that a number spells: digits alone that fit into sixty-four bits, with a sign into
sixty-three and not zero. -/
def integer? (literal : String) : Option Int :=
  let (negative, cs) := cutSign literal
  let n := Text.decimal cs
  if !cs.all Char.isDigit then none
  else if negative then
    if 0 < n ∧ n ≤ 0x8000000000000000 then some (-(Int.ofNat n)) else none
  else if n < countLimit then some (Int.ofNat n)
  else none

end LayerLint.Json
