import DurableQueue.Data.Shape

/-!
Types whose values can be written as documents.

A `Document` type has a shape, and its values become a `Datum` of that shape and can be read back
from one.
-/

namespace DurableQueue

/-- A type whose values can be written as documents. -/
class Document (α : Type) where
  /-- The form of the documents. -/
  shape : Shape
  toDatum : α → Datum
  ofDatum? : Datum → Option α

namespace Datum

def toText? : Datum → Option (Option String)
  | .absent => some none
  | .present (.text s) => some (some s)
  | _ => none

def ofText? : Option String → Datum
  | none => .absent
  | some s => .present (.text s)

/-- Bytes as a list of numbers. -/
def ofBytes (bytes : List UInt8) : Datum := .list (bytes.map fun b => .int b.toNat)

def toByte? : Datum → Option UInt8
  | .int n => if 0 ≤ n ∧ n < 256 then some n.toNat.toUInt8 else none
  | _ => none

def toBytes? : Datum → Option (List UInt8)
  | .list items => items.mapM toByte?
  | _ => none

def toUInt32? : Datum → Option UInt32
  | .int n => if 0 ≤ n ∧ n < UInt32.size then some n.toNat.toUInt32 else none
  | _ => none

def toNat? : Datum → Option Nat
  | .int n => if 0 ≤ n then some n.toNat else none
  | _ => none

def toInt? : Datum → Option Int
  | .int n => some n
  | _ => none

def toBool? : Datum → Option Bool
  | .bool b => some b
  | _ => none

def toString? : Datum → Option String
  | .text s => some s
  | _ => none

def toSpan? : Datum → Option Span
  | .span s => some s
  | _ => none

def toTimestamp? : Datum → Option Timestamp
  | .time t => some t
  | _ => none

def toOption? {α : Type} (read : Datum → Option α) : Datum → Option (Option α)
  | .absent => some none
  | .present d => (read d).map some
  | _ => none

def toList? {α : Type} (read : Datum → Option α) : Datum → Option (List α)
  | .list items => items.mapM read
  | _ => none

end Datum

namespace Document

instance : Document Bool := ⟨.bool, .bool, Datum.toBool?⟩
instance : Document String := ⟨.text, .text, Datum.toString?⟩
instance : Document Int := ⟨.int .i64, .int, Datum.toInt?⟩
instance : Document Nat := ⟨.int .u64, fun n => .int n, Datum.toNat?⟩
instance : Document UInt32 := ⟨.int .u32, fun n => .int n.toNat, Datum.toUInt32?⟩
instance : Document UInt8 := ⟨.int .u8, fun n => .int n.toNat, Datum.toByte?⟩
instance : Document Span := ⟨.span, .span, Datum.toSpan?⟩
instance : Document Timestamp := ⟨.time, .time, Datum.toTimestamp?⟩

instance {α : Type} [Document α] : Document (Option α) where
  shape := .option (shape α)
  toDatum
    | none => .absent
    | some a => .present (toDatum a)
  ofDatum? := Datum.toOption? ofDatum?

instance {α : Type} [Document α] : Document (List α) where
  shape := .list (shape α)
  toDatum items := .list (items.map toDatum)
  ofDatum? := Datum.toList? ofDatum?

end Document

end DurableQueue
