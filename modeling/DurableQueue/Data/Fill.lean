import DurableQueue.Data.Value
import DurableQueue.Data.Document
import DurableQueue.Time.Rfc3339

/-!
Values of a shape from values of unknown shape.

`Shape.fill` reads what a person writes down by hand: a whole number of milliseconds may stand for a
span, a text for its bytes, and a record may leave out what another value of the shape supplies.
-/

namespace DurableQueue

namespace Fallback

/-- What stands for a field that is left out. -/
def toOption : Fallback → Option Datum
  | required => none
  | optional => some .absent
  | preset d => some d

end Fallback

/-- A span as seconds and nanoseconds, of which there may be more than a second. -/
def Value.toSpan? (v : Value) : Option Span := do
  let seconds ← (← v.get? "secs").toInt?
  let nanos ← (← v.get? "nanos").toInt?
  Span.ofParts? seconds.toNat nanos.toNat

namespace Shape

mutual

/-- Reads a value of a shape; fields that a record lacks come from `base`. -/
def fill : Shape → Option Datum → Value → Option Datum
  | .bool, _, .bool b => some (.bool b)
  | .int _, _, v => v.toInt?.map .int
  | .float, _, .text "nan" => some (.float (0.0 / 0.0))
  | .float, _, .text "inf" => some (.float (1.0 / 0.0))
  | .float, _, .text "-inf" => some (.float (-1.0 / 0.0))
  | .float, _, v => v.toFloat?.map .float
  | .text, _, .text s => some (.text s)
  | .time, _, .text s => (Rfc3339.parse s).toOption.map .time
  | .span, _, .unsigned n => some (.span (.ofMillis n.toUInt64))
  | .span, _, v => v.toSpan?.map .span
  | .option _, _, .null => some .absent
  | .option s, _, v => (s.fill none v).map .present
  | .list _, _, .text s => some (.ofBytes s.toUTF8.toList)
  | .list s, _, .list items => (items.mapM (s.fill none)).map .list
  | .record _ _ fields, some (.record values), .table given =>
    (fillFields fields (values.map some) given).map .record
  | .record _ _ fields, _, .table given => (fillFields fields [] given).map .record
  | .choice _ variants, _, .text name => fillVariant variants name none
  | .choice _ variants, _, .table [(name, v)] => fillVariant variants name (some v)
  | .pairKeyed, _, .list items => some (.keyed items.length)
  | _, _, _ => none

/-- Reads the fields of a record, each with what stands for it if it is left out. -/
def fillFields : List (String × Fallback × Shape) → List (Option Datum) → List (String × Value) →
    Option (List Datum)
  | [], _, _ => some []
  | (name, fallback, s) :: rest, others, given => do
    let other := match others with
      | d :: _ => d
      | [] => fallback.toOption
    let d ← match given.lookup name with
      | none => other
      | some .null => (match s.fill none .null with
        | some d => some d
        | none => other)
      | some v => s.fill other v
    return d :: (← fillFields rest others.tail given)

/-- Reads a choice by its name. -/
def fillVariant : List (String × String × Option Shape) → String → Option Value → Option Datum
  | [], _, _ => none
  | (name, tag, none) :: rest, given, payload =>
    match name == given, payload with
    | true, none => some (.choice tag none)
    | _, _ => fillVariant rest given payload
  | (name, tag, some s) :: rest, given, payload =>
    match name == given, payload with
    | true, some v => (s.fill none v).map fun d => .choice tag (some d)
    | _, _ => fillVariant rest given payload

end

end Shape

/-- Reads a value of a document type. -/
def Document.fill {α : Type} [Document α] (base : Option α) (v : Value) : Option α := do
  ofDatum? (← (shape α).fill (base.map toDatum) v)

end DurableQueue
