import DurableQueue.Json.Scan

/-!
Reading values of a shape from JSON.

`Shape.ofJson` reads the whole of a text as a value of a shape. Records may be written as objects
or as lists of their fields in order, choices as a name or as an object of one name. Of several
faults the first one in reading order is reported.
-/

namespace DurableQueue.Json

open Scanner

/-- The fault of a value that is not of the expected kind; the value is consumed as far as its kind
tells. -/
def unexpected {α : Type} (expected : String) : Scanner α := settle do
  let wrong {β : Type} (found : Found) : Scanner β := failOpen (.wrongType found expected)
  let numeral (n : Numeral) : Found := match n with
    | .unsigned n => .int n
    | .signed n => .int n
    | .float x => .float x
  match ← peek with
  | some 0x6e => do advance; word ['u', 'l', 'l']; wrong .null
  | some 0x74 => do advance; word ['r', 'u', 'e']; wrong (.bool true)
  | some 0x66 => do advance; word ['a', 'l', 's', 'e']; wrong (.bool false)
  | some 0x2d => do advance; wrong (numeral (← number false))
  | some 0x22 => do advance; wrong (.text (← string))
  | some 0x5b => wrong .list
  | some 0x7b => wrong .map
  | some b =>
    if isDigitByte b then do wrong (numeral (← number true))
    else failAhead (.malformed .expectedValue)
  | none => failAhead (.malformed .expectedValue)

/-- Peeks at the first byte of a value. -/
def peekValue : Scanner UInt8 := do
  match ← peekToken with
  | some b => return b
  | none => failAhead (.unfinished .value)

/-- Reads a number and hands it to a test. -/
def readNumber {α : Type} (expected : String) (accept : Numeral → Except Mismatch α) :
    Scanner α := settle do
  let check (n : Numeral) : Scanner α := match accept n with
    | .ok a => pure a
    | .error m => failOpen m
  let b ← peekValue
  if b = 0x2d then
    advance
    check (← number false)
  else if isDigitByte b then check (← number true)
  else unexpected expected

/-- A whole number of a range. -/
def acceptInt (r : IntRange) (n : Numeral) : Except Mismatch Datum :=
  let whole (n : Int) : Except Mismatch Datum :=
    if r.contains n then .ok (.int n) else .error (.wrongValue (.int n) r.name)
  match n with
  | .unsigned n => whole n
  | .signed n => whole n
  | .float x => .error (.wrongType (.float x) r.name)

/-- Any number as a floating-point one. -/
def acceptFloat (n : Numeral) : Except Mismatch Datum :=
  match n with
  | .unsigned n => .ok (.float n.toUInt64.toFloat)
  | .signed n => .ok (.float (-n.natAbs.toUInt64.toFloat))
  | .float x => .ok (.float x)

/-- Reads a string and hands it to a test. -/
def readText {α : Type} (expected : String) (accept : String → Except Mismatch α) :
    Scanner α := settle do
  let b ← peekValue
  if b = 0x22 then
    advance
    match accept (← string) with
    | .ok a => return a
    | .error m => failOpen m
  else unexpected expected

def readBool : Scanner Datum := settle do
  match ← peekValue with
  | 0x74 => do advance; word ['r', 'u', 'e']; return .bool true
  | 0x66 => do advance; word ['a', 'l', 's', 'e']; return .bool false
  | _ => unexpected "a boolean"

/-- Moves to the next item of a list, if there is one. -/
def nextItem (first : Bool) : Scanner Bool := do
  match ← peekToken with
  | none => failAhead (.unfinished .list)
  | some b =>
    if b = 0x5d then return false
    else if first then return true
    else if b = 0x2c then
      advance
      match ← peekToken with
      | some 0x5d => failAhead (.malformed .trailingComma)
      | some _ => return true
      | none => failAhead (.unfinished .value)
    else failAhead (.malformed .expectedListEnd)

def endList : Scanner Unit := do
  match ← peekToken with
  | some 0x5d => advance
  | some 0x2c => do
    advance
    match ← peekToken with
    | some 0x5d => failAhead (.malformed .trailingComma)
    | _ => failAhead (.malformed .trailingCharacters)
  | some _ => failAhead (.malformed .trailingCharacters)
  | none => failAhead (.unfinished .list)

/-- Moves to the next key of an object, if there is one, and reads it. -/
def nextKey (first : Bool) : Scanner (Option String) := do
  let key : Scanner (Option String) := do
    advance
    return some (← string)
  match ← peekToken with
  | none => failAhead (.unfinished .object)
  | some b =>
    if b = 0x7d then return none
    else if first then
      if b = 0x22 then key else failAhead (.malformed .keyNotString)
    else if b = 0x2c then
      advance
      match ← peekToken with
      | some 0x22 => key
      | some 0x7d => failAhead (.malformed .trailingComma)
      | some _ => failAhead (.malformed .keyNotString)
      | none => failAhead (.unfinished .value)
    else failAhead (.malformed .expectedObjectEnd)

def endObject : Scanner Unit := do
  match ← peekToken with
  | some 0x7d => advance
  | some 0x2c => failAhead (.malformed .trailingComma)
  | some _ => failAhead (.malformed .trailingCharacters)
  | none => failAhead (.unfinished .object)

def colon : Scanner Unit := do
  match ← peekToken with
  | some 0x3a => advance
  | some _ => failAhead (.malformed .expectedColon)
  | none => failAhead (.unfinished .object)

/-- Reads the items of a list after its bracket. -/
def readItems (item : Scanner Datum) : Nat → Bool → Scanner (List Datum)
  | 0, _ => failAhead (.unfinished .list)
  | fuel + 1, first => do
    if ← nextItem first then
      let d ← item
      return d :: (← readItems item fuel false)
    else return []

/-- How one field of a record is read. -/
structure FieldReader where
  name : String
  fallback : Fallback
  read : Scanner Datum

/-- Reads a record written as a list, after its bracket. -/
def readFieldsInOrder (expected : String) : List FieldReader → Nat → Scanner (List Datum)
  | [], _ => return []
  | f :: rest, count => do
    let present ← nextItem (count == 0)
    if present then
      let d ← f.read
      return d :: (← readFieldsInOrder expected rest (count + 1))
    else
      match f.fallback with
      | .preset d => return d :: (← readFieldsInOrder expected rest count)
      | _ => failOpen (.wrongLength count expected)

/-- The value of a field after all fields of an object were read. -/
def fieldOrFallback (f : FieldReader) (seen : List (String × Datum)) : Scanner Datum :=
  match seen.lookup f.name, f.fallback with
  | some d, _ => return d
  | none, .required => failOpen (.missingField f.name)
  | none, .optional => return .absent
  | none, .preset d => return d

/-- Reads a record written as an object, after its brace. -/
def readFieldsByName (strict : Bool) (fields : List FieldReader) :
    Nat → Bool → List (String × Datum) → Scanner (List Datum)
  | 0, _, _ => failAhead (.unfinished .object)
  | fuel + 1, first, seen => do
    match ← nextKey first with
    | none => fields.mapM fun f => fieldOrFallback f seen
    | some key =>
      match fields.find? fun f => f.name == key with
      | some f =>
        if (seen.lookup key).isSome then failOpen (.duplicateField key)
        else
          colon
          let d ← f.read
          readFieldsByName strict fields fuel false ((key, d) :: seen)
      | none =>
        if strict then failOpen (.unknownField key (fields.map FieldReader.name))
        else
          colon
          skipValue
          readFieldsByName strict fields fuel false seen

/-- Reads a record and makes something of its fields, before what closes the record is read. -/
def readRecord (title listTitle : String) (strict : Bool) (fields : List FieldReader)
    (build : List Datum → Scanner Datum) : Scanner Datum := settle do
  match ← peekValue with
  | 0x5b => do
    advance
    enclosed (readFieldsInOrder listTitle fields 0 >>= build) endList
  | 0x7b => do
    advance
    let fuel := (← get).ahead.length + 1
    enclosed (readFieldsByName strict fields fuel true [] >>= build) endObject
  | _ => unexpected title

/-- One name of a choice: the tag that it stands for and how its value is read. -/
structure VariantReader where
  name : String
  tag : String
  payload : Option (Scanner Datum)
  /-- What a bare name is told that it should have been. -/
  expected : String

/-- Reads the name of a choice. -/
def readVariantName (variants : List VariantReader) : Scanner VariantReader :=
  readText "variant identifier" fun name =>
    match variants.find? fun v => v.name == name with
    | some v => .ok v
    | none => .error (.unknownVariant name (variants.map VariantReader.name))

/-- Reads the null that a name without a value carries inside an object. -/
def readUnit : Scanner Unit := settle do
  match ← peekValue with
  | 0x6e => do advance; word ['u', 'l', 'l']
  | _ => unexpected "unit"

def readChoice (variants : List VariantReader) : Scanner Datum := do
  match ← peekToken with
  | some 0x7b => do
    advance
    let v ← readVariantName variants
    colon
    let d ← match v.payload with
      | none => do readUnit; pure (Datum.choice v.tag none)
      | some payload => do pure (Datum.choice v.tag (some (← payload)))
    match ← peekToken with
    | some 0x7d => do advance; return d
    | some _ => fail (.malformed .expectedValue)
    | none => fail (.unfinished .object)
  | some 0x22 => do
    let v ← readVariantName variants
    match v.payload with
    | none => return .choice v.tag none
    | some _ => failOpen (.wrongType .unitVariant v.expected)
  | some _ => failAhead (.malformed .expectedValue)
  | none => failAhead (.unfinished .value)

/-- Reads an object whose keys would have to be pairs; only the empty one can be read. -/
def readPairKeyed : Scanner Datum := settle do
  match ← peekValue with
  | 0x7b => do
    advance
    let body : Scanner Datum := do
      match ← nextKey true with
      | none => return .keyed 0
      | some key => failOpen (.wrongType (.text key) "a tuple of size 2")
    enclosed body endObject
  | _ => unexpected "a map"

/-- Seconds and nanoseconds as a span. -/
def spanOfFields (fields : List Datum) : Scanner Datum :=
  match fields with
  | [.int seconds, .int nanos] =>
    match Span.ofParts? seconds.toNat nanos.toNat with
    | some s => return .span s
    | none => failOpen .spanTooLong
  | _ => failOpen .spanTooLong

/-- The fields of a span in a document. -/
def spanFields : List FieldReader :=
  [⟨"secs", .required, readNumber "u64" (acceptInt .u64)⟩,
   ⟨"nanos", .required, readNumber "u32" (acceptInt .u32)⟩]

/-- The type that a message gives the value of a name that was written bare. -/
def variantExpected : Shape → String
  | .record _ _ _ => "struct variant"
  | _ => "newtype variant"

mutual

/-- Reads a value of a shape. -/
def read : Shape → Scanner Datum
  | .bool => readBool
  | .int range => readNumber range.name (acceptInt range)
  | .float => readNumber "f64" acceptFloat
  | .text => readText "a string" fun s => .ok (.text s)
  | .time => readText "an RFC 3339 formatted date and time string" fun s =>
    match Rfc3339.parse s with
    | .ok t => .ok (.time t)
    | .error r => .error (.badTime r)
  | .span => readRecord "struct Duration" "struct Duration" true spanFields spanOfFields
  | .option shape => do
    match ← peekToken with
    | some 0x6e => do advance; word ['u', 'l', 'l']; return .absent
    | _ => return .present (← read shape)
  | .list shape => settle do
    match ← peekValue with
    | 0x5b => do
      advance
      let fuel := (← get).ahead.length + 1
      return .list (← enclosed (readItems (read shape) fuel true) endList)
    | _ => unexpected "a sequence"
  | .record title strict fields => do
    let readers := fieldReaders fields
    readRecord title (Shape.expectedLength title readers.length) strict readers
      fun values => return .record values
  | .choice _ variants => readChoice (variantReaders variants)
  | .pairKeyed => readPairKeyed

/-- How the fields of a record are read. -/
def fieldReaders : List (String × Fallback × Shape) → List FieldReader
  | [] => []
  | (name, fallback, shape) :: rest => ⟨name, fallback, read shape⟩ :: fieldReaders rest

/-- How the names of a choice are read. -/
def variantReaders : List (String × String × Option Shape) → List VariantReader
  | [] => []
  | (name, tag, none) :: rest => ⟨name, tag, none, ""⟩ :: variantReaders rest
  | (name, tag, some shape) :: rest =>
    ⟨name, tag, some (read shape), variantExpected shape⟩ :: variantReaders rest

end

/-- Reads a value of a shape from the whole of a text. -/
def readAll (shape : Shape) (text : List UInt8) : Except Fault Datum :=
  let whole : Scanner Datum := do
    let d ← read shape
    match ← peekToken with
    | some _ => failAhead (.malformed .trailingCharacters)
    | none => return d
  (whole ⟨text, 0⟩).1

end DurableQueue.Json
