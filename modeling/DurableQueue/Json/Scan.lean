import DurableQueue.Json.Fault

/-!
Scanning JSON text.

A `Scanner` moves a `Cursor` over the bytes of a text and answers a value or a fault; the cursor is
known after a fault too, since the place of an outer fault depends on it. Here are the tokens:
blanks, words, numbers and strings, and values that are skipped unread.
-/

namespace DurableQueue.Json

/-- The bytes ahead and how many bytes were read. -/
structure Cursor where
  ahead : List UInt8
  index : Nat

/-- A step over the text. -/
abbrev Scanner (α : Type) := ExceptT Fault (StateM Cursor) α

namespace Scanner

def peek : Scanner (Option UInt8) := do return (← get).ahead.head?

def advance : Scanner Unit :=
  modify fun c => match c.ahead with
    | [] => c
    | _ :: rest => ⟨rest, c.index + 1⟩

/-- Consumes a byte and answers it. -/
def next : Scanner (Option UInt8) := do
  let b ← peek
  advance
  return b

/-- Consumes bytes while they pass a test, and answers them. -/
def takeWhile (p : UInt8 → Bool) : Scanner (List UInt8) :=
  modifyGet fun c =>
    let run := c.ahead.takeWhile p
    (run, ⟨c.ahead.drop run.length, c.index + run.length⟩)

/-- Fails at the bytes read so far. -/
def fail {α : Type} (cause : Cause) : Scanner α := do
  throw ⟨cause, some (← get).index⟩

/-- Fails at the byte ahead, or at the end of the text. -/
def failAhead {α : Type} (cause : Cause) : Scanner α := do
  let c ← get
  throw ⟨cause, some (if c.ahead.isEmpty then c.index else c.index + 1)⟩

/-- Fails at a place that an enclosing value settles. -/
def failOpen {α : Type} (m : Mismatch) : Scanner α := throw ⟨.mismatch m, none⟩

/-- Gives a fault without a place the place reached by now. -/
def settle {α : Type} (s : Scanner α) : Scanner α :=
  fun c =>
    match s c with
    | (.error f, c') =>
      match f.place with
      | none => (.error { f with place := some c'.index }, c')
      | some _ => (.error f, c')
    | r => r

/-- Runs a second scanner also after a fault of the first, whose fault then wins. -/
def enclosed {α : Type} (s : Scanner α) (close : Scanner Unit) : Scanner α :=
  fun c =>
    match s c with
    | (.error f, c') => (.error f, (close c').2)
    | (.ok a, c') =>
      match close c' with
      | (.error f, c'') => (.error f, c'')
      | (.ok _, c'') => (.ok a, c'')

def isBlankByte (b : UInt8) : Bool := b == 0x20 || b == 0x0a || b == 0x09 || b == 0x0d

def isDigitByte (b : UInt8) : Bool := 0x30 ≤ b && b ≤ 0x39

def peekToken : Scanner (Option UInt8) := do
  let _ ← takeWhile isBlankByte
  peek

/-- Consumes the rest of a word whose first letter told which word it is. -/
def word : List Char → Scanner Unit
  | [] => pure ()
  | c :: rest => do
    match ← next with
    | none => fail (.unfinished .value)
    | some b => if b.toNat = c.toNat then word rest else fail (.malformed .expectedWord)

/-! ### Numbers -/

/-- A number as it is written: whole numbers that fit 64 bits are kept apart from all others. -/
inductive Numeral where
  | unsigned (n : Nat)
  | signed (n : Int)
  | float (x : Float)

def largestExact : Nat := UInt64.size - 1

/-- A power of ten as a number. -/
def powerOfTen (n : Nat) : Float := OfScientific.ofScientific 1 false n

/-- The number `significand * 10 ^ exponent`: each step multiplies or divides once, and powers
beyond the largest one are taken in several steps. -/
def scaleByTen (fuel : Nat) (value : Float) (exponent : Int) : Option Float :=
  match fuel with
  | 0 => some value
  | fuel + 1 =>
    if exponent.natAbs ≤ 308 then
      if 0 ≤ exponent then
        let r := value * powerOfTen exponent.natAbs
        if r.isInf then none else some r
      else some (value / powerOfTen exponent.natAbs)
    else if value == 0.0 then some value
    else if 0 ≤ exponent then none
    else scaleByTen fuel (value / 1e308) (exponent + 308)

/-- The number with this sign, significand and power of ten. -/
def numeral (positive : Bool) (significand : Nat) (exponent : Int) : Scanner Float := do
  match scaleByTen 16 significand.toUInt64.toFloat exponent with
  | none => fail (.malformed .numberOutOfRange)
  | some x => return if positive then x else -x

/-- Reads digits into a significand as long as it stays exact: the significand, the number of
digits taken, and whether a digit was left because of its size. -/
def digitsExact (significand : Nat) : List UInt8 → Nat × Nat × Bool
  | [] => (significand, 0, false)
  | b :: rest =>
    if isDigitByte b then
      let grown := significand * 10 + (b.toNat - 0x30)
      if largestExact < grown then (significand, 0, true)
      else
        let (s, n, more) := digitsExact grown rest
        (s, n + 1, more)
    else (significand, 0, false)

def drop (n : Nat) : Scanner Unit := modify fun c => ⟨c.ahead.drop n, c.index + n⟩

def largestExponent : Nat := 0x7fffffff

/-- Reads digits into an exponent up to the first one that makes it too large: the exponent, if it
is not too large, and the number of digits taken. -/
def exponentDigits (exponent : Nat) : List UInt8 → Option Nat × Nat
  | [] => (some exponent, 0)
  | b :: rest =>
    if isDigitByte b then
      let grown := exponent * 10 + (b.toNat - 0x30)
      if largestExponent < grown then (none, 1)
      else
        let (e, n) := exponentDigits grown rest
        (e, n + 1)
    else (some exponent, 0)

/-- Reads an exponent, whose letter is ahead. -/
def exponentPart (positive : Bool) (significand : Nat) (start : Int) : Scanner Float := do
  advance
  let up ← match ← peek with
    | some 0x2b => do advance; pure true
    | some 0x2d => do advance; pure false
    | _ => pure true
  match ← next with
  | none => fail (.unfinished .value)
  | some b =>
    if !isDigitByte b then fail (.malformed .invalidNumber)
    else
      let (exponent, taken) := exponentDigits (b.toNat - 0x30) (← get).ahead
      drop taken
      match exponent with
      | some e => numeral positive significand (if up then start + e else start - e)
      | none =>
        if significand ≠ 0 ∧ up then fail (.malformed .numberOutOfRange)
        else
          let _ ← takeWhile isDigitByte
          return if positive then 0.0 else -0.0

/-- Reads what may follow the digits after the point. -/
def afterFraction (positive : Bool) (significand : Nat) (exponent : Int) : Scanner Float := do
  match ← peek with
  | some 0x65 => exponentPart positive significand exponent
  | some 0x45 => exponentPart positive significand exponent
  | _ => numeral positive significand exponent

/-- Reads a fraction, whose point is ahead; digits beyond an exact significand are dropped. -/
def fractionPart (positive : Bool) (significand : Nat) (start : Int) : Scanner Float := do
  advance
  let (s, taken, more) := digitsExact significand (← get).ahead
  drop taken
  let exponent := start - taken
  if more then
    let _ ← takeWhile isDigitByte
    afterFraction positive s exponent
  else if taken = 0 then
    match ← peek with
    | some _ => failAhead (.malformed .invalidNumber)
    | none => failAhead (.unfinished .value)
  else afterFraction positive s exponent

/-- Reads a number after its sign. -/
def number (positive : Bool) : Scanner Numeral := do
  let finish (significand : Nat) : Scanner Numeral := do
    match ← peek with
    | some 0x2e => return .float (← fractionPart positive significand 0)
    | some 0x65 => return .float (← exponentPart positive significand 0)
    | some 0x45 => return .float (← exponentPart positive significand 0)
    | _ =>
      if positive then return .unsigned significand
      else if significand = 0 ∨ Nat.pow 2 63 < significand then
        return .float (-significand.toUInt64.toFloat)
      else return .signed (-(significand : Int))
  match ← next with
  | none => fail (.unfinished .value)
  | some b =>
    if b = 0x30 then
      match ← peek with
      | some d => if isDigitByte d then failAhead (.malformed .invalidNumber) else finish 0
      | none => finish 0
    else if isDigitByte b then
      let (s, taken, more) := digitsExact (b.toNat - 0x30) (← get).ahead
      drop taken
      if more then
        let dropped ← takeWhile isDigitByte
        match ← peek with
        | some 0x2e => return .float (← fractionPart positive s dropped.length)
        | _ => return .float (← afterFraction positive s dropped.length)
      else finish s
    else fail (.malformed .invalidNumber)

/-! ### Strings -/

def hexValue (b : UInt8) : Option Nat :=
  if 0x30 ≤ b && b ≤ 0x39 then some (b.toNat - 0x30)
  else if 0x61 ≤ b && b ≤ 0x66 then some (b.toNat - 0x61 + 10)
  else if 0x41 ≤ b && b ≤ 0x46 then some (b.toNat - 0x41 + 10)
  else none

/-- Reads the four digits of a hexadecimal escape. -/
def hexEscape : Scanner Nat := do
  match (← get).ahead with
  | a :: b :: c :: d :: _ =>
    drop 4
    match hexValue a, hexValue b, hexValue c, hexValue d with
    | some a, some b, some c, some d => return ((a * 16 + b) * 16 + c) * 16 + d
    | _, _, _, _ => fail (.malformed .invalidEscape)
  | few =>
    drop few.length
    fail (.unfinished .string)

/-- Consumes a byte that must be there. -/
def nextInString : Scanner UInt8 := do
  match ← peek with
  | none => fail (.unfinished .string)
  | some b => do advance; return b

/-- The bytes of a code point. -/
def utf8 (code : Nat) : List UInt8 := (String.singleton (Char.ofNat code)).toUTF8.toList

/-- Reads a hexadecimal escape and, for the first half of a pair, the second one. -/
def unicodeEscape : Scanner (List UInt8) := do
  let first ← hexEscape
  if 0xdc00 ≤ first ∧ first ≤ 0xdfff then fail (.malformed .loneSurrogate)
  else if first < 0xd800 ∨ 0xdbff < first then return utf8 first
  else
    let expect (b : UInt8) : Scanner Unit := do
      if (← nextInString) ≠ b then fail (.malformed .shortHexEscape)
    expect 0x5c
    expect 0x75
    let second ← hexEscape
    if second < 0xdc00 ∨ 0xdfff < second then fail (.malformed .loneSurrogate)
    else return utf8 ((first - 0xd800) * 1024 + (second - 0xdc00) + 0x10000)

/-- Reads an escape after its backslash. -/
def escape : Scanner (List UInt8) := do
  match ← nextInString with
  | 0x22 => return [0x22]
  | 0x5c => return [0x5c]
  | 0x2f => return [0x2f]
  | 0x62 => return [0x08]
  | 0x66 => return [0x0c]
  | 0x6e => return [0x0a]
  | 0x72 => return [0x0d]
  | 0x74 => return [0x09]
  | 0x75 => unicodeEscape
  | _ => fail (.malformed .invalidEscape)

/-- Whether a byte stands for itself inside a string. -/
def isPlainByte (b : UInt8) : Bool := b != 0x22 && b != 0x5c && 0x20 ≤ b

/-- Reads a string after its opening quote; `fuel` bounds the number of escapes. -/
def stringBytes : Nat → Scanner (List UInt8)
  | 0 => fail (.unfinished .string)
  | fuel + 1 => do
    let plain ← takeWhile isPlainByte
    match ← peek with
    | none => fail (.unfinished .string)
    | some 0x22 => do advance; return plain
    | some 0x5c => do
      advance
      let escaped ← escape
      return plain ++ escaped ++ (← stringBytes fuel)
    | some _ => do
      advance
      fail (.malformed .controlCharacter)

/-- Reads a string after its opening quote. -/
def string : Scanner String := do
  let bytes ← stringBytes ((← get).ahead.length + 1)
  match String.fromUTF8? ⟨bytes.toArray⟩ with
  | some s => return s
  | none => fail (.malformed .invalidUnicode)

/-! ### Values that nobody reads -/

/-- Skips a string after its opening quote. -/
def skipString : Nat → Scanner Unit
  | 0 => fail (.unfinished .string)
  | fuel + 1 => do
    let _ ← takeWhile isPlainByte
    match ← peek with
    | none => fail (.unfinished .string)
    | some 0x22 => advance
    | some 0x5c => do
      advance
      match ← nextInString with
      | 0x75 => do let _ ← hexEscape
      | b =>
        if ([0x22, 0x5c, 0x2f, 0x62, 0x66, 0x6e, 0x72, 0x74] : List UInt8).contains b then pure ()
        else fail (.malformed .invalidEscape)
      skipString fuel
    | some _ => fail (.malformed .controlCharacter)

def skipExponent : Scanner Unit := do
  advance
  match ← peek with
  | some 0x2b => advance
  | some 0x2d => advance
  | _ => pure ()
  match ← next with
  | some b => if isDigitByte b then let _ ← takeWhile isDigitByte else fail (.malformed .invalidNumber)
  | none => fail (.malformed .invalidNumber)

def skipNumber : Scanner Unit := do
  match ← next with
  | some 0x30 =>
    match ← peek with
    | some d => if isDigitByte d then failAhead (.malformed .invalidNumber)
    | none => pure ()
  | some b => if isDigitByte b then let _ ← takeWhile isDigitByte else fail (.malformed .invalidNumber)
  | none => fail (.malformed .invalidNumber)
  match ← peek with
  | some 0x2e => do
    advance
    let digits ← takeWhile isDigitByte
    if digits.isEmpty then failAhead (.malformed .invalidNumber)
    match ← peek with
    | some 0x65 => skipExponent
    | some 0x45 => skipExponent
    | _ => pure ()
  | some 0x65 => skipExponent
  | some 0x45 => skipExponent
  | _ => pure ()

/-- An open list or object around a skipped value. -/
inductive Bracket where
  | list
  | object
deriving DecidableEq

/-- The mark that closes a bracket. -/
def Bracket.closing : Bracket → UInt8
  | .list => 0x5d
  | .object => 0x7d

/-- After a value or an opening: closes brackets, and answers the brackets that are still open once
another value must follow. -/
def closeBrackets (afterValue : Bool) : List Bracket → Scanner (List Bracket)
  | [] => return []
  | b :: outer => do
    match ← peekToken with
    | none => failAhead (.unfinished (if b = .list then .list else .object))
    | some c =>
      if c = 0x2c ∧ afterValue then
        advance
        return b :: outer
      else if c = b.closing then
        advance
        closeBrackets true outer
      else if afterValue then
        failAhead (.malformed (if b = .list then .expectedListEnd else .expectedObjectEnd))
      else return b :: outer

/-- Skips a key and its colon. -/
def skipKey (fuel : Nat) : Scanner Unit := do
  match ← peekToken with
  | some 0x22 => advance
  | some _ => failAhead (.malformed .keyNotString)
  | none => failAhead (.unfinished .object)
  skipString fuel
  match ← peekToken with
  | some 0x3a => advance
  | some _ => failAhead (.malformed .expectedColon)
  | none => failAhead (.unfinished .object)

/-- Skips a value inside open brackets; `fuel` bounds the number of values in it. -/
def skipValues : Nat → List Bracket → Scanner Unit
  | 0, _ => failAhead (.unfinished .value)
  | fuel + 1, open_ => do
    let opened ← match ← peekToken with
      | none => failAhead (.unfinished .value)
      | some 0x6e => do advance; word ['u', 'l', 'l']; pure none
      | some 0x74 => do advance; word ['r', 'u', 'e']; pure none
      | some 0x66 => do advance; word ['a', 'l', 's', 'e']; pure none
      | some 0x2d => do advance; skipNumber; pure none
      | some 0x22 => do advance; skipString ((← get).ahead.length + 1); pure none
      | some 0x5b => do advance; pure (some Bracket.list)
      | some 0x7b => do advance; pure (some Bracket.object)
      | some b =>
        if isDigitByte b then do skipNumber; pure none
        else failAhead (.malformed .expectedValue)
    let still ← match opened with
      | none => closeBrackets true open_
      | some b => closeBrackets false (b :: open_)
    match still with
    | [] => return ()
    | .list :: _ => skipValues fuel still
    | .object :: _ => do
      skipKey ((← get).ahead.length + 1)
      skipValues fuel still

def skipValue : Scanner Unit := do skipValues ((← get).ahead.length + 1) []

end Scanner

end DurableQueue.Json
