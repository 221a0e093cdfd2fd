import LayerLint.Toml.Value

/-!
# Tables under construction

A document fills its tables key by key. What made a table decides how it may be added to later: a
table can be opened by a header once, dotted keys may only add to tables that dotted keys made, and
a value is closed.
-/

namespace LayerLint.Toml

/-- What made a table. -/
inductive Origin where
  /-- A header of its own. -/
  | header
  /-- A header of a table below it. -/
  | passage
  /-- A dotted key. -/
  | dotted
  deriving DecidableEq, Repr

/-- What stands under a key. -/
inductive Node where
  | value (value : Value)
  | table (origin : Origin) (fields : List (String × Node))
  /-- An array of tables, of which only the last is added to. -/
  | tables (earlier : List (List (String × Node))) (last : List (String × Node))

/-- The keys of a table. -/
abbrev Fields := List (String × Node)

/-- Changes the table at the end of a path. Tables on the way are made where there are none. On the
way of a dotted key no table with a header of its own is passed. -/
def descend (dotted : Bool) (change : Origin → Fields → Option Fields) :
    (path : List String) → Origin → Fields → Option Fields
  | [], origin, fields => change origin fields
  | key :: path, _, fields =>
    match Assoc.get? key fields with
    | none => do
      let origin := if dotted then .dotted else .passage
      let inner ← descend dotted change path origin []
      return Assoc.set key (.table origin inner) fields
    | some (.value _) => none
    | some (.table origin inner) =>
      if dotted && origin == .header then none
      else do
        let inner ← descend dotted change path origin inner
        return Assoc.set key (.table origin inner) fields
    | some (.tables earlier last) => do
      let last ← descend dotted change path .header last
      return Assoc.set key (.tables earlier last) fields

/-- Puts a value under a new key. -/
def putNew (key : String) (value : Value) (fields : Fields) : Option Fields :=
  if (Assoc.get? key fields).isSome then none else some (fields ++ [(key, .value value)])

/-- Puts a value under a key, which is dotted when there is a path in front of it. A dotted key
ends in a table that dotted keys made, a plain one in a table that they did not make. -/
def putDotted (path : List String) (key : String) (value : Value) (fields : Fields) :
    Option Fields :=
  descend true (fun origin fields =>
    if (origin == .dotted) == path.isEmpty then none else putNew key value fields)
    path .header fields

/-- Opens the table of a header, which may have been passed before and not opened. It comes last
among its neighbours. -/
def openTable (path : List String) (key : String) (root : Fields) : Option Fields :=
  descend false (fun _ fields =>
    match Assoc.get? key fields with
    | none | some (.table .passage _) =>
      let inner := match Assoc.get? key fields with
        | some (.table _ inner) => inner
        | _ => []
      some (Assoc.erase key fields ++ [(key, .table .header inner)])
    | _ => none) path .header root

/-- Opens a further table of an array of tables. -/
def openRow (path : List String) (key : String) (root : Fields) : Option Fields :=
  descend false (fun _ fields =>
    match Assoc.get? key fields with
    | none => some (Assoc.set key (.tables [] []) fields)
    | some (.tables earlier last) =>
      some (Assoc.set key (.tables (earlier ++ [last]) []) fields)
    | _ => none) path .header root

mutual

/-- The finished value. -/
def Node.finish : Node → Value
  | .value value => value
  | .table _ fields => .table (finishFields fields)
  | .tables earlier last => .array (finishRows earlier ++ [.table (finishFields last)])

/-- The finished fields of a table. -/
def finishFields : List (String × Node) → List (String × Value)
  | [] => []
  | (key, node) :: rest => (key, node.finish) :: finishFields rest

/-- The finished tables of an array. -/
def finishRows : List (List (String × Node)) → List Value
  | [] => []
  | fields :: rest => .table (finishFields fields) :: finishRows rest

end

end LayerLint.Toml
