/-!
TOML documents as trees of tables. Only the values a configuration can use are kept; of floats and
dates it is enough to know that they are there.
-/
set_option autoImplicit false

namespace Reprise

namespace Toml

/-- How a table came to be, which decides what may still be added to it. -/
inductive Origin where
  /-- By a header of its own. -/
  | header
  /-- On the way to the table of a header. -/
  | implied
  /-- By a key with dots. -/
  | dotted
  /-- In braces, complete at once. -/
  | inline
deriving DecidableEq

end Toml

inductive Toml where
  | text (s : String)
  | int (n : Int)
  | float
  | bool (b : Bool)
  | date
  | array (items : List Toml)
  | table (origin : Toml.Origin) (fields : List (String × Toml))
  /-- The tables of a repeated double header, the latest last. -/
  | tables (items : List (List (String × Toml)))
deriving Inhabited

namespace Toml

abbrev Fields : Type := List (String × Toml)

def setField (name : String) (value : Toml) : Fields → Fields
  | [] => [(name, value)]
  | (n, v) :: rest => if n = name then (n, value) :: rest else (n, v) :: setField name value rest

/-- Puts a value under a new key, with a table for every dot before the last part. The way may lead
through tables that were only implied and through the latest of repeated ones, but a table made by
dots has to be at its end. -/
def insertAt : List String → String → Toml → Fields → Option Fields
  | [], key, value, fields =>
    match fields.lookup key with
    | some _ => none
    | none => some (fields ++ [(key, value)])
  | step :: path, key, value, fields =>
    match fields.lookup step with
    | none =>
      (insertAt path key value []).map fun inner => fields ++ [(step, .table .dotted inner)]
    | some (.table .dotted inner) =>
      (insertAt path key value inner).map fun inner => setField step (.table .dotted inner) fields
    | some (.table .implied inner) =>
      if path.isEmpty then none
      else
        (insertAt path key value inner).map fun inner => setField step (.table .implied inner) fields
    | some (.tables items) =>
      if path.isEmpty then none
      else
        match items.reverse with
        | [] => none
        | last :: before =>
          (insertAt path key value last).map fun inner =>
            setField step (.tables (inner :: before).reverse) fields
    | some _ => none

/-- Changes the table at a path of headers; missing tables are made on the way, and of repeated ones
the latest is meant. -/
def changeAt (change : Fields → Option Fields) : List String → Fields → Option Fields
  | [], fields => change fields
  | step :: path, fields =>
    match fields.lookup step with
    | none => (changeAt change path []).map fun inner => fields ++ [(step, .table .implied inner)]
    | some (.table .inline _) => none
    | some (.table origin inner) =>
      (changeAt change path inner).map fun inner => setField step (.table origin inner) fields
    | some (.tables items) =>
      match items.reverse with
      | [] => none
      | last :: before =>
        (changeAt change path last).map fun inner =>
          setField step (.tables (inner :: before).reverse) fields
    | some _ => none

def openTable (key : String) (fields : Fields) : Option Fields :=
  match fields.lookup key with
  | none => some (fields ++ [(key, .table .header [])])
  | some (.table .implied inner) => some (setField key (.table .header inner) fields)
  | some _ => none

def openItem (key : String) (fields : Fields) : Option Fields :=
  match fields.lookup key with
  | none => some (fields ++ [(key, .tables [[]])])
  | some (.tables items) => some (setField key (.tables (items ++ [[]])) fields)
  | some _ => none

inductive Line where
  | blank
  | pair (path : List String) (key : String) (value : Toml)
  | header (path : List String) (key : String)
  | item (path : List String) (key : String)

/-- Enters a line; the section is the path of the latest header. -/
def enterLine (state : List String × Fields) : Line → Option (List String × Fields)
  | .blank => some state
  | .pair path key value =>
    (changeAt (insertAt path key value) state.1 state.2).map fun fields => (state.1, fields)
  | .header path key =>
    (changeAt (openTable key) path state.2).map fun fields => (path ++ [key], fields)
  | .item path key =>
    (changeAt (openItem key) path state.2).map fun fields => (path ++ [key], fields)

def ofLines (lines : List Line) : Option Fields :=
  (lines.foldlM enterLine ([], [])).map Prod.snd

end Toml

end Reprise
