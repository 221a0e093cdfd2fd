import LayerLint.Assoc
import LayerLint.Binary64
import LayerLint.Text.Digits
import LayerLint.Toml.DateTime

/-!
# TOML values
-/

namespace LayerLint.Toml

/-- A TOML value. -/
inductive Value where
  | string (text : String)
  | integer (value : Int)
  | float (value : Binary64)
  | boolean (value : Bool)
  | dateTime (value : DateTime)
  | array (items : List Value)
  | table (fields : List (String × Value))
  deriving Inhabited, Repr

namespace Value

/-- The integer as a value, if it fits into sixty-four bits with a sign. -/
def ofInteger? (n : Int) : Option Value :=
  if -0x8000000000000000 ≤ n ∧ n < 0x8000000000000000 then some (.integer n) else none

/-- The text of a string. -/
def text? : Value → Option String
  | .string text => some text
  | _ => none

/-- The text of a string, or the text of a date or time. -/
def spelling? : Value → Option String
  | .string text => some text
  | .dateTime value => some value.text
  | _ => none

/-- The truth value. -/
def bool? : Value → Option Bool
  | .boolean b => some b
  | _ => none

/-- The integer. -/
def integer? : Value → Option Int
  | .integer n => some n
  | _ => none

/-- A number of things: an integer that is not negative and below the limit of counts. -/
def count? : Value → Option Nat
  | .integer n => if 0 ≤ n ∧ n.toNat < countLimit then some n.toNat else none
  | _ => none

/-- The items of an array. -/
def items? : Value → Option (List Value)
  | .array items => some items
  | _ => none

/-- The key that a date or time has where a table is asked for. -/
def dateTimeKey : String := "$__toml_private_datetime"

/-- The fields of a table. A date or time counts as a table with its text under a key of its own. -/
def fields? : Value → Option (Assoc Value)
  | .table fields => some fields
  | .dateTime value => some [(dateTimeKey, .string value.text)]
  | _ => none

/-- The texts of an array of strings. -/
def texts? (value : Value) : Option (List String) := do
  (← value.items?).mapM text?

/-- The values of a record's fields. A record is written as a table, whose other fields do not
count, or as an array of its fields in order, with fields left out at the end; items beyond the
last field do not count. -/
def record? (names : List String) : Value → Option (List (Option Value))
  | .array items => some ((items.map some ++ List.replicate names.length none).take names.length)
  | value => value.fields?.map fun fields => names.map (Assoc.get? · fields)

/-- Reads a field that has a default. -/
def defaulted {α : Type} (read : Value → Option α) (default : α) : Option Value → Option α
  | none => some default
  | some value => read value

/-- Reads a field that may be missing. -/
def optional {α : Type} (read : Value → Option α) : Option Value → Option (Option α)
  | none => some none
  | some value => (read value).map some

mutual

/-- A value of any kind as it is kept. A table that starts with the key of dates and times stands
for one and holds nothing but its text; integers fit into sixty-four bits with a sign. -/
def keep? : Value → Option Value
  | .integer n => ofInteger? n
  | .array items => (keepItems? items).map .array
  | .table [] => some (.table [])
  | .table ((key, value) :: rest) =>
    if key = dateTimeKey then
      match value, rest with
      | .string text, [] => (dateTime? text.toList).map .dateTime
      | _, _ => none
    else do
      return .table ((key, ← keep? value) :: (← keepFields? rest))
  | value => some value

/-- Values of any kind as they are kept. -/
def keepItems? : List Value → Option (List Value)
  | [] => some []
  | item :: rest => do
    return (← keep? item) :: (← keepItems? rest)

/-- Fields as they are kept. -/
def keepFields? : List (String × Value) → Option (List (String × Value))
  | [] => some []
  | (key, value) :: rest => do
    return (key, ← keep? value) :: (← keepFields? rest)

end

end Value

end LayerLint.Toml
