import LayerLint.Text.Digits

/-!
# JSON values
-/

namespace LayerLint

/-- A JSON value as it is written: numbers keep their spelling, and objects keep the order and the
repetitions of their fields. -/
inductive Json where
  | null
  | bool (value : Bool)
  | num (literal : String)
  | str (text : String)
  | arr (items : List Json)
  | obj (fields : List (String × Json))
  /-- A string, or an object with a field name, whose escapes leave a surrogate unpaired. It has the
  form of JSON and spells no text. -/
  | garbled
  deriving Inhabited, Repr

namespace Json

/-- The number that counts `n`. -/
def ofNat (n : Nat) : Json :=
  .num (toString n)

/-- The text of a string. -/
def text? : Json → Option String
  | .str s => some s
  | _ => none

/-- The truth value. -/
def bool? : Json → Option Bool
  | .bool b => some b
  | _ => none

/-- The items of an array. -/
def items? : Json → Option (List Json)
  | .arr items => some items
  | _ => none

/-- The texts of an array of strings. -/
def texts? (j : Json) : Option (List String) := do
  (← j.items?).mapM text?

/-- A count: a number below the limit of counts, written with digits alone. -/
def count? : Json → Option Nat
  | .num literal =>
    let cs := literal.toList
    if cs.all Char.isDigit && Text.decimal cs < countLimit then some (Text.decimal cs) else none
  | _ => none

/-- A field that is written at most once. -/
def field? (name : String) (fields : List (String × Json)) : Option (Option Json) :=
  match fields.filter (·.1 == name) with
  | [] => some none
  | [(_, value)] => some (some value)
  | _ => none

/-- The values of a record's fields. A record is written as an object, whose other fields do not
count, or as an array of its fields in order, with fields left out at the end. -/
def record? (names : List String) : Json → Option (List (Option Json))
  | .obj fields => names.mapM (field? · fields)
  | .arr items =>
    if items.length ≤ names.length then
      some (items.map some ++ List.replicate (names.length - items.length) none)
    else none
  | _ => none

/-- Reads a field that has a default. -/
def defaulted {α : Type} (read : Json → Option α) (default : α) : Option Json → Option α
  | none => some default
  | some value => read value

/-- Reads a value that may be null. -/
def nullable {α : Type} (read : Json → Option α) : Json → Option (Option α)
  | .null => some none
  | value => (read value).map some

end Json

end LayerLint
