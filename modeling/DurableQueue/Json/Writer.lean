import DurableQueue.Data.Shape
import DurableQueue.Decimal.Binary64
import DurableQueue.Time.Rfc3339

/-!
Writing values of a shape as JSON.

`write` writes a value without blanks, its fields in the order of the shape. Only an object whose
keys would be pairs cannot be written. `writeWith` leaves the form of floating-point numbers open.
-/

namespace DurableQueue.Json

/-- A character inside a string: quotes, backslashes and controls are escaped. -/
def escapedChar (c : Char) : List Char :=
  match c with
  | '"' => ['\\', '"']
  | '\\' => ['\\', '\\']
  | '\x08' => ['\\', 'b']
  | '\x0c' => ['\\', 'f']
  | '\n' => ['\\', 'n']
  | '\r' => ['\\', 'r']
  | '\t' => ['\\', 't']
  | c =>
    if c.toNat < 0x20 then
      ['\\', 'u', '0', '0', Nat.digitChar (c.toNat / 16), Nat.digitChar (c.toNat % 16)]
    else [c]

/-- A string. -/
def writeText (s : String) : String :=
  String.ofList ('"' :: s.toList.flatMap escapedChar ++ ['"'])

/-- An object of written values. -/
def writeObject (fields : List (String × String)) : String :=
  "\x7b" ++ ",".intercalate (fields.map fun f => writeText f.1 ++ ":" ++ f.2) ++ "\x7d"

/-- A floating-point number; one that is not finite has no form in JSON. -/
def writeFloat (x : Float) : String :=
  if x.isNaN || x.isInf then "null" else Binary64.render .scientific x

mutual

/-- Writes a value of a shape; a value of another shape is not written. -/
def writeWith (float : Float → String) : Shape → Datum → Option String
  | .bool, .bool b => some (if b then "true" else "false")
  | .int _, .int n => some (toString n)
  | .float, .float x => some (float x)
  | .text, .text s => some (writeText s)
  | .time, .time t => some (writeText (Rfc3339.render t))
  | .span, .span s =>
    some (writeObject [("secs", toString s.seconds), ("nanos", toString s.subsecond)])
  | .option _, .absent => some "null"
  | .option shape, .present d => writeWith float shape d
  | .list shape, .list items => do
    let written ← items.mapM (writeWith float shape)
    return "[" ++ ",".intercalate written ++ "]"
  | .record _ _ fields, .record values => do return writeObject (← writeFields float fields values)
  | .choice _ variants, .choice tag payload => writeVariant float variants tag payload
  | .pairKeyed, .keyed 0 => some "\x7b\x7d"
  | _, _ => none

/-- Writes the fields of a record under their names. -/
def writeFields (float : Float → String) :
    List (String × Fallback × Shape) → List Datum → Option (List (String × String))
  | [], [] => some []
  | (name, _, shape) :: rest, d :: values => do
    let written ← writeWith float shape d
    return (name, written) :: (← writeFields float rest values)
  | _, _ => none

/-- Writes a choice under the first name of its tag. -/
def writeVariant (float : Float → String) :
    List (String × String × Option Shape) → String → Option Datum → Option String
  | [], _, _ => none
  | (name, itsTag, none) :: rest, tag, payload =>
    match itsTag == tag, payload with
    | true, none => some (writeText name)
    | _, _ => writeVariant float rest tag payload
  | (name, itsTag, some shape) :: rest, tag, payload =>
    match itsTag == tag, payload with
    | true, some d => do return writeObject [(name, ← writeWith float shape d)]
    | _, _ => writeVariant float rest tag payload

end

/-- Writes a value of a shape. -/
def write : Shape → Datum → Option String := writeWith writeFloat

end DurableQueue.Json
