import DurableQueue.Settings.Document
import DurableQueue.Settings.Environment
import DurableQueue.Text.Quoted
import DurableQueue.Toml.Reader

/-!
Loading settings from several sources.

Sources are tables; a later one overrides an earlier one. `Settings.ofTables` gives every setting
its form or says which one has the wrong form, the first by name. `Settings.load` takes a TOML file
and the variables of the environment, of which those that belong to the node count most.
-/

namespace DurableQueue

mutual

/-- One value overriding another; two tables are joined. -/
def Value.overriddenBy : Value → Value → Value
  | .table old, .table new => .table (joinFields old new)
  | _, new => new

/-- The fields of two tables; the second table counts. -/
def joinFields : List (String × Value) → List (String × Value) → List (String × Value)
  | [], new => new
  | (name, old) :: rest, new =>
    match new.lookup name with
    | some v => (name, old.overriddenBy v) :: joinFields rest (new.filter fun f => f.1 != name)
    | none => (name, old) :: joinFields rest new

end

/-- Ways in which a value fails to fit a shape. -/
inductive Misfit where
  | wrongType (found : Value) (expected : String)
  | wrongValue (found : Value) (expected : String)
  | unknownVariant (name : String) (known : List String)

def Value.describe : Value → String
  | .null => "unit"
  | .bool b => "bool " ++ DispatchConfig.describeBool b
  | .unsigned n => "unsigned int `" ++ toString n ++ "`"
  | .signed n => "signed int `" ++ toString n ++ "`"
  | .float x => "float `" ++ Binary64.render .plain x ++ "`"
  | .text s => "string " ++ Text.quoted s
  | .character c => "string " ++ Text.quoted (String.singleton c)
  | .list _ => "sequence"
  | .table _ => "map"

def Misfit.message : Misfit → String
  | wrongType found expected => "invalid type: found " ++ found.describe ++ ", expected " ++ expected
  | wrongValue found expected => "invalid value " ++ found.describe ++ ", expected " ++ expected
  | unknownVariant name known =>
    "unknown variant: found `" ++ name ++ "`, expected `" ++ listNames known "" ++ "`"

/-- Why settings could not be loaded. -/
inductive LoadError where
  /-- The file is no TOML. -/
  | unreadable
  /-- A variable cannot be, or has no value. -/
  | noValue
  /-- The value at a path does not fit. -/
  | misfit (path : List String) (m : Misfit)
  | invalid (e : SettingsError)

namespace Shape

/-- A value of a form that has names only. -/
def fitName (variants : List (String × String × Option Shape)) (name : String) :
    Except (List String × Misfit) Datum :=
  match variants.lookup name with
  | some (tag, _) => .ok (.choice tag none)
  | none => .error ([], .unknownVariant name (variants.map Prod.fst))

/-- Gives a value its form, or says where it fails to fit; only forms of settings are given. -/
def fit : Shape → Value → Except (List String × Misfit) Datum
  | .bool, .bool b => .ok (.bool b)
  | .int range, v =>
    match v.toInt? with
    | some n => if range.contains n then .ok (.int n) else .error ([], .wrongValue v range.name)
    | none => .error ([], .wrongType v range.name)
  | .float, v =>
    match v.toFloat? with
    | some x => .ok (.float x)
    | none => .error ([], .wrongType v Shape.float.expected)
  | .text, .text s => .ok (.text s)
  | .text, .character c => .ok (.text (String.singleton c))
  | .option _, .null => .ok .absent
  | .option s, v => (s.fit v).map .present
  | .choice _ variants, .text name => fitName variants name
  | .choice _ variants, .table fields =>
    match fields.mergeSort fun a b => decide (a.1 ≤ b.1) with
    | [] => .error ([], .wrongType (.table fields) "enum")
    | (name, v) :: _ => do
      let d ← (fitName variants name).mapError fun (_, m) => ([name], m)
      match v with
      | .null => return d
      | v => throw ([name], .wrongType v "unit")
  | s, v => .error ([], .wrongType v s.expected)

end Shape

namespace Settings

/-- The values of the settings in a table, by name. The standard value of a setting stands where the
table has none. -/
def fitAll (table : Value) : Except LoadError (List (String × Datum)) :=
  let ordered := fields.mergeSort fun a b => decide (a.1 ≤ b.1)
  ordered.filterMapM fun (name, _, shape) =>
    match table.get? name with
    | none => return none
    | some v =>
      match shape.fit v with
      | .ok d => return some (name, d)
      | .error (place, m) => throw (.misfit (name :: place) m)

/-- Settings from tables, each of which overrides those before it. -/
def ofTables (tables : List Value) : Except LoadError Settings := do
  let given ← fitAll (tables.foldl Value.overriddenBy (.table []))
  let values := (names.zip standard.values).map fun (name, d) => (given.lookup name).getD d
  let s := (ofValues? values).getD standard
  s.validate.mapError .invalid
  return s

/-- The beginning of the names of variables that belong to a node. -/
def variableStart : String := "SPOOL_"

/-- Variables that count under their own names. -/
def sharedVariables : List String := ["DATABASE_URL", "RUST_LOG"]

/-- The tables that the variables of an environment make. -/
def variableTables (environment : List (String × String)) : Option (List Value) := do
  guard (environment.all fun v => Environment.canHold v.1 v.2)
  let shared ← Environment.layers (Environment.among? sharedVariables) environment
  let own ← Environment.layers (Environment.without? variableStart) environment
  return shared ++ own

/-- Loads settings from the text of a file, if there is one, and from variables. That a variable has
no value is found before any fault of the file. -/
def load (file : Option String) (environment : List (String × String)) :
    Except LoadError Settings := do
  let layers ← match variableTables environment with
    | some layers => .ok layers
    | none => .error .noValue
  let table ← match file with
    | none => .ok []
    | some text =>
      match Toml.parse text with
      | some fields => .ok fields
      | none => .error .unreadable
  ofTables (.table table :: layers)

end Settings

end DurableQueue
