import DurableQueue.Time.Timestamp

/-!
What structured values look like.

A `Shape` describes the values that a document may hold at one place, and a `Datum` is such a
value. Readers and writers of documents work from the shape alone, so every type that is stored or
configured has one shape and one pair of conversions from and to `Datum`.
-/

namespace DurableQueue

/-- A range of whole numbers under the name that messages give it. -/
structure IntRange where
  name : String
  low : Int
  high : Int
deriving DecidableEq

namespace IntRange

def contains (r : IntRange) (n : Int) : Bool := r.low ≤ n && n ≤ r.high

def u8 : IntRange := ⟨"u8", 0, 0xff⟩
def u32 : IntRange := ⟨"u32", 0, 0xffffffff⟩
def u64 : IntRange := ⟨"u64", 0, 0xffffffffffffffff⟩
def usize : IntRange := ⟨"usize", 0, 0xffffffffffffffff⟩
def i32 : IntRange := ⟨"i32", -0x80000000, 0x7fffffff⟩
def i64 : IntRange := ⟨"i64", -0x8000000000000000, 0x7fffffffffffffff⟩

end IntRange

/-- A structured value. -/
inductive Datum where
  | bool (b : Bool)
  | int (n : Int)
  | float (x : Float)
  | text (s : String)
  | time (t : Timestamp)
  | span (s : Span)
  | absent
  | present (d : Datum)
  | list (items : List Datum)
  | record (fields : List Datum)
  | choice (tag : String) (payload : Option Datum)
  | keyed (count : Nat)
deriving Inhabited

/-- What stands for a field that a document leaves out. -/
inductive Fallback where
  /-- The field must be there. -/
  | required
  /-- The field may be left out of an object, not of a list. -/
  | optional
  /-- The field has a value of its own when it is left out. -/
  | preset (d : Datum)

/-- The form of the values at one place of a document. -/
inductive Shape where
  | bool
  | int (range : IntRange)
  | float
  | text
  | time
  | span
  | option (shape : Shape)
  | list (shape : Shape)
  /-- Named fields; `strict` refuses names that are not among them. -/
  | record (title : String) (strict : Bool) (fields : List (String × Fallback × Shape))
  /-- One of several names, each standing for a tag and perhaps carrying a value. -/
  | choice (title : String) (variants : List (String × String × Option Shape))
  /-- An object whose keys are pairs of numbers, which no object key can be. -/
  | pairKeyed

/-- Names in the form in which messages list what would have been right. -/
def listNames (names : List String) (none_ : String) : String :=
  match names.map fun n => "`" ++ n ++ "`" with
  | [] => none_
  | [a] => a
  | [a, b] => a ++ " or " ++ b
  | all => "one of " ++ ", ".intercalate all

namespace Shape

/-- What a message says was expected at a place of this shape. -/
def expected : Shape → String
  | .bool => "a boolean"
  | .int range => range.name
  | .float => "f64"
  | .text => "a string"
  | .time => "an RFC 3339 formatted date and time string"
  | .span => "struct Duration"
  | .option _ => "option"
  | .list _ => "a sequence"
  | .record title _ _ => title
  | .choice title _ => title
  | .pairKeyed => "a map"

/-- What a message says of a list that is shorter than the record it stands for. -/
def expectedLength (title : String) (count : Nat) : String :=
  title ++ " with " ++ toString count ++ (if count = 1 then " element" else " elements")

end Shape

end DurableQueue
