/-!
# Sixty-four bit floating point

Numbers by their bits, and the number nearest to a decimal, found in exact arithmetic.
-/

namespace LayerLint

/-- A floating point number by its sign, exponent and fraction bits. -/
structure Binary64 where
  bits : UInt64
  deriving DecidableEq, Repr

namespace Binary64

/-- The bits of positive infinity. -/
def infinityBits : Nat := 0x7FF0000000000000

/-- The number with these bits below the sign. -/
def signed (negative : Bool) (magnitude : Nat) : Binary64 :=
  ⟨UInt64.ofNat (if negative then 0x8000000000000000 + magnitude else magnitude)⟩

/-- Infinity. -/
def infinity (negative : Bool) : Binary64 :=
  signed negative infinityBits

/-- A value that is no number. -/
def notANumber (negative : Bool) : Binary64 :=
  signed negative 0x7FF8000000000000

/-- Whether the value is no number. -/
def isNaN (x : Binary64) : Bool :=
  infinityBits < x.bits.toNat % 0x8000000000000000

/-- The quotient rounded to the nearest integer, a half to the even one. -/
def roundDiv (num den : Nat) : Nat :=
  let q := num / den
  let r := num % den
  if 2 * r < den then q else if den < 2 * r then q + 1 else q + q % 2

/-- The integer part of the binary logarithm of a positive quotient. -/
def quotientLog (num den : Nat) : Int :=
  let guess : Int := Int.ofNat num.log2 - Int.ofNat den.log2
  let below := if guess < 0 then num <<< guess.natAbs < den else num < den <<< guess.natAbs
  if below then guess - 1 else guess

/-- The magnitude bits of the number nearest to a positive quotient. A quotient beyond the greatest
number gives the bits of infinity or more. -/
def magnitudeOf (num den : Nat) : Nat :=
  -- The unit of the last place: fifty-two binary places down, and no finer than the least number.
  let finest : Int := quotientLog num den - 52
  let unit : Int := if finest < -1074 then -1074 else finest
  let mantissa :=
    if unit < 0 then roundDiv (num <<< unit.natAbs) den
    else roundDiv num (den <<< unit.natAbs)
  (unit + 1074).toNat <<< 52 + mantissa

/-- The magnitude bits of the number nearest to a quotient, at most those of infinity. -/
def nearest (num den : Nat) : Nat :=
  if num = 0 then 0 else min (magnitudeOf num den) infinityBits

/-- A finite magnitude as a quotient. -/
def fraction (magnitude : Nat) : Nat × Nat :=
  let exponent := magnitude >>> 52
  let places := magnitude % 0x10000000000000
  if exponent = 0 then (places, 1 <<< 1074)
  else if exponent < 1075 then (0x10000000000000 + places, 1 <<< (1075 - exponent))
  else ((0x10000000000000 + places) <<< (exponent - 1075), 1)

/-- The rounded product of finite magnitudes. -/
def product (a b : Nat) : Nat :=
  nearest ((fraction a).1 * (fraction b).1) ((fraction a).2 * (fraction b).2)

/-- The rounded quotient of finite magnitudes, the second not zero. -/
def quotient (a b : Nat) : Nat :=
  nearest ((fraction a).1 * (fraction b).2) ((fraction a).2 * (fraction b).1)

/-- The magnitude bits of the number nearest to `digits * 10 ^ exponent`, at most those of
infinity. -/
def decimalMagnitude (digits : Nat) (exponent : Int) : Nat :=
  let places : Int := Int.ofNat (Nat.toDigits 10 digits).length + exponent
  if digits = 0 ∨ places < -330 then 0
  else if 310 < places then infinityBits
  else if exponent < 0 then nearest digits (Nat.pow 10 exponent.natAbs)
  else nearest (digits * Nat.pow 10 exponent.natAbs) 1

/-- The number nearest to a decimal; infinity when it is beyond the greatest. -/
def ofDecimal (negative : Bool) (digits : Nat) (exponent : Int) : Binary64 :=
  signed negative (decimalMagnitude digits exponent)

end Binary64

end LayerLint
