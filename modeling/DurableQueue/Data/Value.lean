import DurableQueue.Data.Shape

/-!
Values that say themselves what they are.

A `Value` comes from a document that is read before it is known what it should hold. Whole numbers
remember whether they were written in a form that has signs, since messages tell the two apart.
-/

namespace DurableQueue

/-- A value of unknown shape. -/
inductive Value where
  | null
  | bool (b : Bool)
  /-- A whole number of a form without signs. -/
  | unsigned (n : Nat)
  /-- A whole number of a form with signs. -/
  | signed (n : Int)
  | float (x : Float)
  | text (s : String)
  /-- A single character, where it is told from a text. -/
  | character (c : Char)
  | list (items : List Value)
  | table (fields : List (String × Value))
deriving Inhabited

namespace Value

/-- The value of a key of a table; the first one counts. -/
def get? (v : Value) (key : String) : Option Value :=
  match v with
  | table fields => fields.lookup key
  | _ => none

def toInt? : Value → Option Int
  | unsigned n => some n
  | signed n => some n
  | _ => none

def toFloat? : Value → Option Float
  | unsigned n => some n.toUInt64.toFloat
  | signed n =>
    some (if n < 0 then -(n.natAbs.toUInt64.toFloat) else n.natAbs.toUInt64.toFloat)
  | float x => some x
  | _ => none

@[simp] theorem get?_table (fields : List (String × Value)) (key : String) :
    (table fields).get? key = fields.lookup key := rfl

end Value

end DurableQueue
