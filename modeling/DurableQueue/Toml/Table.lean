import DurableQueue.Data.Value

/-!
TOML tables while they are built.

A table may be opened by its own header, come into being on the way to another one, or by a dotted
key. `Table.insert` and `Table.openTable` refuse whatever would define a key or a table twice.
-/

namespace DurableQueue.Toml

/-- How a table came into being. -/
inductive Origin where
  /-- By its own header. -/
  | header
  /-- On the way to another table. -/
  | passage
  /-- By a dotted key. -/
  | dotted
deriving DecidableEq

/-- What stands under a key. -/
inductive Item where
  | value (v : Value)
  | table (origin : Origin) (fields : List (String × Item))
  /-- A list of tables, each opened by a header of its own. -/
  | tables (items : List (List (String × Item)))

/-- The fields of a table. -/
abbrev Fields := List (String × Item)

namespace Fields

/-- Puts an item under a key, in the place of an earlier one. -/
def put (t : Fields) (name : String) (item : Item) : Fields :=
  if (t.lookup name).isSome then t.map fun f => if f.1 == name then (name, item) else f
  else t ++ [(name, item)]

/-- Changes the table at the end of a path, and makes the tables on the way. A dotted key does not
pass through tables that have a header. -/
def changeAt (dotted : Bool) (f : Origin → Fields → Option Fields) :
    Origin → List String → Fields → Option Fields
  | origin, [], t => f origin t
  | _, name :: path, t => do
    let made := if dotted then Origin.dotted else Origin.passage
    match t.lookup name with
    | none => return t.put name (.table made (← changeAt dotted f made path []))
    | some (.value _) => none
    | some (.table origin fields) =>
      if dotted && origin == .header then none
      else return t.put name (.table origin (← changeAt dotted f origin path fields))
    | some (.tables items) =>
      match items.reverse with
      | [] => none
      | last :: others =>
        return t.put name (.tables (others.reverse ++ [← changeAt dotted f .header path last]))

/-- Puts a value under a dotted key. -/
def insert (t : Fields) (path : List String) (name : String) (v : Value) : Option Fields :=
  changeAt true
    (fun origin fields =>
      if (origin == .dotted) == path.isEmpty ∨ (fields.lookup name).isSome then none
      else some (fields.put name (.value v)))
    .header path t

/-- Opens the table of a header. -/
def openTable (t : Fields) (path : List String) (name : String) : Option Fields :=
  changeAt false
    (fun _ fields =>
      match fields.lookup name with
      | none => some (fields.put name (.table .header []))
      | some (.table .passage inner) => some (fields.put name (.table .header inner))
      | some _ => none)
    .header path t

/-- Opens one more table of a list of tables. -/
def openNextTable (t : Fields) (path : List String) (name : String) : Option Fields :=
  changeAt false
    (fun _ fields =>
      match fields.lookup name with
      | none => some (fields.put name (.tables [[]]))
      | some (.tables items) => some (fields.put name (.tables (items ++ [[]])))
      | some _ => none)
    .header path t

/-- Changes the table that was opened last under a path. -/
def changeOpen (f : Fields → Option Fields) : List String → Fields → Option Fields
  | [], t => f t
  | name :: path, t =>
    match t.lookup name with
    | some (.table origin fields) => do
      return t.put name (.table origin (← changeOpen f path fields))
    | some (.tables items) =>
      match items.reverse with
      | [] => none
      | last :: others => do
        return t.put name (.tables (others.reverse ++ [← changeOpen f path last]))
    | _ => none

end Fields

mutual

def Item.toValue : Item → Value
  | .value v => v
  | .table _ fields => .table (fieldValues fields)
  | .tables items => .list (tableValues items)

def fieldValues : List (String × Item) → List (String × Value)
  | [] => []
  | (name, item) :: rest => (name, item.toValue) :: fieldValues rest

def tableValues : List (List (String × Item)) → List Value
  | [] => []
  | t :: rest => .table (fieldValues t) :: tableValues rest

end

end DurableQueue.Toml
