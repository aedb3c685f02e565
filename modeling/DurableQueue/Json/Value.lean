import DurableQueue.Data.Value
import DurableQueue.Json.Reader

/-!
JSON text of unknown shape.

`parse` reads any JSON text into a `Value`. Whole numbers are unsigned unless they carry a minus sign.
-/

namespace DurableQueue.Json

open Scanner

/-- A number as a value. -/
def Scanner.Numeral.toValue : Scanner.Numeral → Value
  | unsigned n => .unsigned n
  | signed n => .signed n
  | float x => .float x

mutual

/-- Reads a value; `fuel` bounds its depth and the number of its parts. -/
def valueOfAnyShape : Nat → Scanner Value
  | 0 => failAhead (.unfinished .value)
  | fuel + 1 => do
    match ← peekValue with
    | 0x6e => do advance; word ['u', 'l', 'l']; return .null
    | 0x74 => do advance; word ['r', 'u', 'e']; return .bool true
    | 0x66 => do advance; word ['a', 'l', 's', 'e']; return .bool false
    | 0x22 => do advance; return .text (← string)
    | 0x5b => do advance; return .list (← itemsOfAnyShape fuel true)
    | 0x7b => do advance; return .table (← fieldsOfAnyShape fuel true)
    | 0x2d => do advance; return (← number false).toValue
    | _ => return (← number true).toValue

/-- Reads the items of a list after its bracket. -/
def itemsOfAnyShape : Nat → Bool → Scanner (List Value)
  | 0, _ => failAhead (.unfinished .list)
  | fuel + 1, first => do
    if ← nextItem first then
      let v ← valueOfAnyShape fuel
      return v :: (← itemsOfAnyShape fuel false)
    else
      endList
      return []

/-- Reads the fields of an object after its brace. -/
def fieldsOfAnyShape : Nat → Bool → Scanner (List (String × Value))
  | 0, _ => failAhead (.unfinished .object)
  | fuel + 1, first => do
    match ← nextKey first with
    | some key =>
      colon
      let v ← valueOfAnyShape fuel
      return (key, v) :: (← fieldsOfAnyShape fuel false)
    | none =>
      endObject
      return []

end

/-- Reads a value from the whole of a text. -/
def parse (text : List UInt8) : Except Fault Value :=
  let whole : Scanner Value := do
    let v ← valueOfAnyShape (text.length + 1)
    match ← peekToken with
    | some _ => failAhead (.malformed .trailingCharacters)
    | none => return v
  (whole ⟨text, 0⟩).1

end DurableQueue.Json
