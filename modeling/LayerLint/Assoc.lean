/-!
# Association lists

Keys with values in the order of their first insertion; setting a key that is there replaces its
value in place.
-/

namespace LayerLint

/-- Values under text keys. -/
abbrev Assoc (α : Type) := List (String × α)

namespace Assoc

variable {α : Type}

/-- The value under a key. -/
def get? (key : String) : Assoc α → Option α
  | [] => none
  | (k, v) :: rest => if k = key then some v else get? key rest

/-- Whether there is a value under a key. -/
def has (key : String) (entries : Assoc α) : Bool :=
  (get? key entries).isSome

/-- Sets the value under a key. -/
def set (key : String) (value : α) : Assoc α → Assoc α
  | [] => [(key, value)]
  | (k, v) :: rest => if k = key then (k, value) :: rest else (k, v) :: set key value rest

/-- Takes a key out. -/
def erase (key : String) (entries : Assoc α) : Assoc α :=
  entries.filter (·.1 != key)

/-- The keys, in order. -/
def keys (entries : Assoc α) : List String :=
  entries.map Prod.fst

end Assoc

end LayerLint
