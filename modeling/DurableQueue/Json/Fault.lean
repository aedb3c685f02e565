import DurableQueue.Data.Shape
import DurableQueue.Decimal.Binary64
import DurableQueue.Text.Quoted
import DurableQueue.Time.Rfc3339

/-!
Faults of JSON text.

A `Fault` has a cause and, nearly always, the number of bytes read when it arose. Text that is cut
short, text that is no JSON, and JSON that does not fit its shape are three categories.
-/

namespace DurableQueue.Json

/-- Ways in which text fails to be JSON. -/
inductive Malformed where
  | expectedColon
  | expectedListEnd
  | expectedObjectEnd
  | expectedWord
  | expectedValue
  | invalidEscape
  | invalidNumber
  | numberOutOfRange
  | invalidUnicode
  | controlCharacter
  | keyNotString
  | loneSurrogate
  | trailingComma
  | trailingCharacters
  | shortHexEscape
deriving DecidableEq, Repr

/-- What was being read when the text ended. -/
inductive Unfinished where
  | list
  | object
  | string
  | value
deriving DecidableEq, Repr

/-- A value that was found where another was expected. -/
inductive Found where
  | null
  | bool (b : Bool)
  | int (n : Int)
  | float (x : Float)
  | text (s : String)
  | list
  | map
  | unitVariant

/-- Ways in which JSON fails to fit a shape. -/
inductive Mismatch where
  | wrongType (found : Found) (expected : String)
  | wrongValue (found : Found) (expected : String)
  | wrongLength (length : Nat) (expected : String)
  | missingField (name : String)
  | duplicateField (name : String)
  | unknownField (name : String) (known : List String)
  | unknownVariant (name : String) (known : List String)
  | badTime (refusal : Rfc3339.Refusal)
  | spanTooLong

/-- Why a text was refused. -/
inductive Cause where
  | unfinished (u : Unfinished)
  | malformed (m : Malformed)
  | mismatch (m : Mismatch)

/-- A cause and the place at which it arose. -/
structure Fault where
  cause : Cause
  place : Option Nat

def Malformed.message : Malformed → String
  | .expectedColon => "expected `:`"
  | .expectedListEnd => "expected `,` or `]`"
  | .expectedObjectEnd => "expected `,` or `\x7d`"
  | .expectedWord => "expected ident"
  | .expectedValue => "expected value"
  | .invalidEscape => "invalid escape"
  | .invalidNumber => "invalid number"
  | .numberOutOfRange => "number out of range"
  | .invalidUnicode => "invalid unicode code point"
  | .controlCharacter => "control character (\\u0000-\\u001F) found while parsing a string"
  | .keyNotString => "key must be a string"
  | .loneSurrogate => "lone leading surrogate in hex escape"
  | .trailingComma => "trailing comma"
  | .trailingCharacters => "trailing characters"
  | .shortHexEscape => "unexpected end of hex escape"

def Unfinished.message : Unfinished → String
  | .list => "EOF while parsing a list"
  | .object => "EOF while parsing an object"
  | .string => "EOF while parsing a string"
  | .value => "EOF while parsing a value"

def Found.message : Found → String
  | .null => "null"
  | .bool b => "boolean `" ++ (if b then "true" else "false") ++ "`"
  | .int n => "integer `" ++ toString n ++ "`"
  | .float x => "floating point `" ++ Binary64.render .scientific x ++ "`"
  | .text s => "string " ++ Text.quoted s
  | .list => "sequence"
  | .map => "map"
  | .unitVariant => "unit variant"

def Mismatch.message : Mismatch → String
  | .wrongType found expected => "invalid type: " ++ found.message ++ ", expected " ++ expected
  | .wrongValue found expected => "invalid value: " ++ found.message ++ ", expected " ++ expected
  | .wrongLength n expected => "invalid length " ++ toString n ++ ", expected " ++ expected
  | .missingField name => "missing field `" ++ name ++ "`"
  | .duplicateField name => "duplicate field `" ++ name ++ "`"
  | .unknownField name known =>
    match known with
    | [] => "unknown field `" ++ name ++ "`, there are no fields"
    | _ => "unknown field `" ++ name ++ "`, expected " ++ listNames known ""
  | .unknownVariant name known =>
    match known with
    | [] => "unknown variant `" ++ name ++ "`, there are no variants"
    | _ => "unknown variant `" ++ name ++ "`, expected " ++ listNames known ""
  | .badTime refusal => refusal.message
  | .spanTooLong => "overflow deserializing Duration"

def Cause.message : Cause → String
  | .unfinished u => u.message
  | .malformed m => m.message
  | .mismatch m => m.message

/-- Line, counted from one, and bytes since its start, of a place in a text. -/
def position (text : List UInt8) (place : Nat) : Nat × Nat :=
  (text.take place).foldl
    (fun (p : Nat × Nat) b => if b == 0x0a then (p.1 + 1, 0) else (p.1, p.2 + 1)) (1, 0)

/-- The wording of a fault with its line and column in the text. -/
def Fault.messageIn (f : Fault) (text : List UInt8) : String :=
  match f.place with
  | none => f.cause.message
  | some place =>
    let (line, column) := position text place
    f.cause.message ++ " at line " ++ toString line ++ " column " ++ toString column

end DurableQueue.Json
