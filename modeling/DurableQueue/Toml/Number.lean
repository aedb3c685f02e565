import DurableQueue.Data.Value
import DurableQueue.Decimal.Binary64
import DurableQueue.Time.Timestamp
import DurableQueue.Toml.Scan

/-!
Numbers and dates of TOML text.

Digits may be separated by single underscores. A date or a time is kept as its text.
-/

namespace DurableQueue.Toml

/-- Reads digits, between which single underscores may stand. -/
def digits (isDigit : Char → Bool) : List Char → Option (List Char × List Char)
  | c :: '_' :: rest => do
    if isDigit c then return Text.consRead c (← digits isDigit rest) else none
  | c :: d :: rest => do
    if !isDigit c then none
    else if isDigit d then return Text.consRead c (← digits isDigit (d :: rest))
    else return ([c], d :: rest)
  | [c] => if isDigit c then some ([c], []) else none
  | [] => none

/-- The number that digits of a base stand for. -/
def valueOf (base : Nat) (cs : List Char) : Nat :=
  cs.foldl (fun n c => base * n + (Text.hexDigit? c).getD 0) 0

def sign : List Char → Bool × List Char
  | '-' :: rest => (true, rest)
  | '+' :: rest => (false, rest)
  | cs => (false, cs)

/-- Reads the digits of a whole number, which start with nought only if that is all. -/
def wholeDigits : List Char → Option (List Char × List Char)
  | '0' :: rest => some (['0'], rest)
  | cs => digits Char.isDigit cs

/-- A whole number of 64 bits with a sign. -/
def signedValue? (n : Int) : Option Value :=
  if IntRange.i64.contains n then some (.signed n) else none

/-- Reads a whole number. -/
def integer : Reader Value
  | '0' :: 'x' :: rest => inBase 16 (fun c => (Text.hexDigit? c).isSome) rest
  | '0' :: 'o' :: rest => inBase 8 (fun c => '0' ≤ c && c ≤ '7') rest
  | '0' :: 'b' :: rest => inBase 2 (fun c => c == '0' || c == '1') rest
  | cs => do
    let (negative, cs) := sign cs
    let (ds, rest) ← wholeDigits cs
    let n : Int := valueOf 10 ds
    return (← signedValue? (if negative then -n else n), rest)
where
  /-- Reads a whole number after the letter of its base. -/
  inBase (base : Nat) (isDigit : Char → Bool) (cs : List Char) : Option (Value × List Char) := do
    let (ds, rest) ← digits isDigit cs
    return (← signedValue? (valueOf base ds), rest)

def exponent : List Char → Option (Option Int × List Char)
  | c :: rest =>
    if c == 'e' || c == 'E' then do
      let (negative, cs) := sign rest
      let (ds, rest) ← digits Char.isDigit cs
      let n : Int := valueOf 10 ds
      return (some (if negative then -n else n), rest)
    else some (none, c :: rest)
  | [] => some (none, [])

/-- Reads a floating-point number: it has a fraction, an exponent, or is a word. -/
def float : Reader Value := fun cs => do
  let (negative, cs) := sign cs
  let signed (x : Float) : Float := if negative then -x else x
  match cs with
  | 'i' :: 'n' :: 'f' :: rest => return (.float (signed (1.0 / 0.0)), rest)
  | 'n' :: 'a' :: 'n' :: rest => return (.float (0.0 / 0.0), rest)
  | cs =>
    let (whole, cs) ← wholeDigits cs
    let (fraction, cs) ← match cs with
      | '.' :: rest => digits Char.isDigit rest
      | cs => some ([], cs)
    let (exponent, rest) ← exponent cs
    if fraction.isEmpty ∧ exponent.isNone then none
    else
      let power := exponent.getD 0 - fraction.length
      let x := signed (Binary64.ofDecimal (valueOf 10 (whole ++ fraction)) power)
      if x.isInf ∧ !negative then none else return (.float x, rest)

/-- Reads a number of so many digits between two bounds. -/
def fixed (width low high : Nat) : Reader Nat := fun cs =>
  let ds := cs.take width
  let n := valueOf 10 ds
  if ds.length = width ∧ ds.all Char.isDigit ∧ low ≤ n ∧ n ≤ high then some (n, cs.drop width)
  else none

def date : Reader Unit := do
  let year ← fixed 4 0 9999
  Reader.expect '-'
  let month ← fixed 2 1 12
  Reader.expect '-'
  let _ ← fixed 2 1 (Timestamp.daysOfMonth year month)

def time : Reader Unit := do
  let _ ← fixed 2 0 23
  Reader.expect ':'
  let _ ← fixed 2 0 59
  Reader.expect ':'
  let _ ← fixed 2 0 60
  fun
    | '.' :: rest =>
      if (rest.takeWhile Char.isDigit).isEmpty then none else some ((), rest.dropWhile Char.isDigit)
    | cs => some ((), cs)

/-- Reads an offset from UTC, if one is ahead. -/
def offset : Reader Unit := fun cs =>
  match cs with
  | 'Z' :: rest => some ((), rest)
  | 'z' :: rest => some ((), rest)
  | c :: rest =>
    if c == '+' || c == '-' then
      (do
        let _ ← fixed 2 0 23
        Reader.expect ':'
        let _ ← fixed 2 0 59 : Reader Unit) rest
    else some ((), cs)
  | [] => some ((), [])

/-- Whether a character separates date and time. -/
def isTimeMark (c : Char) : Bool := c == 'T' || c == 't' || c == ' '

/-- Reads a date, a time of day, or both. -/
def moment : Reader Value := fun cs => do
  let rest ← match date cs with
    | none => (time cs).map Prod.snd
    | some (_, []) => some []
    | some (_, c :: rest) =>
      if isTimeMark c then
        match time rest with
        | some (_, rest) => (offset rest).map Prod.snd
        | none => some (c :: rest)
      else some (c :: rest)
  let shown := String.ofList (cs.take (cs.length - rest.length))
  return (.table [("$__toml_private_datetime", .text shown)], rest)

def number : Reader Value := fun cs =>
  match moment cs with
  | some r => some r
  | none =>
    match float cs with
    | some r => some r
    | none => integer cs

end DurableQueue.Toml
