import DurableQueue.Text.Blank
import DurableQueue.Time.Timestamp

/-!
The RFC 3339 form of timestamps.

`Rfc3339.render` writes UTC with `Z` and the shortest of no, three, six or nine fraction digits
that loses nothing. `Rfc3339.parse` is lenient: blanks may surround the numbers, `T` and `Z` may be
lower case, a space may stand for `T`, `UTC` for `Z`, and the offset may lack its colon. Each
refusal names its cause.
-/

namespace DurableQueue.Rfc3339

/-- Why a text is no timestamp. -/
inductive Refusal where
  | outOfRange
  | impossible
  | invalid
  | tooShort
  | tooLong
deriving DecidableEq, Repr

def Refusal.message : Refusal → String
  | .outOfRange => "input is out of range"
  | .impossible => "no possible date and time matching input"
  | .invalid => "input contains invalid characters"
  | .tooShort => "premature end of input"
  | .tooLong => "trailing input"

/-- Reads at most `most` decimal digits, or any number of them, and at least one. -/
def number (most : Option Nat) (cs : List Char) : Except Refusal (Nat × List Char) :=
  let run := match most with
    | some n => (cs.take n).takeWhile Char.isDigit
    | none => cs.takeWhile Char.isDigit
  match cs, run with
  | [], _ => .error .tooShort
  | _, [] => .error .invalid
  | _, digits =>
    let value := digits.foldl (fun n d => n * 10 + (d.toNat - '0'.toNat)) 0
    if value < Nat.pow 2 63 then .ok (value, cs.drop digits.length) else .error .outOfRange

/-- Reads a number of two digits between two bounds, after blanks. -/
def field (low high : Nat) (cs : List Char) : Except Refusal (Nat × List Char) := do
  let (value, rest) ← number (some 2) (Text.dropBlanks cs)
  if low ≤ value ∧ value ≤ high then .ok (value, rest) else .error .outOfRange

/-- Reads a year: four digits, or a sign and any number of digits. -/
def year (cs : List Char) : Except Refusal (Int × List Char) := do
  let check (value : Int) (rest : List Char) : Except Refusal (Int × List Char) :=
    if -0x80000000 ≤ value ∧ value < 0x80000000 then .ok (value, rest) else .error .outOfRange
  match Text.dropBlanks cs with
  | '-' :: rest =>
    let (value, rest) ← number none rest
    check (-(value : Int)) rest
  | '+' :: rest =>
    let (value, rest) ← number none rest
    check value rest
  | cs =>
    let (value, rest) ← number (some 4) cs
    check value rest

/-- Reads one expected character after blanks. -/
def separator (expected : Char) (cs : List Char) : Except Refusal (List Char) :=
  match Text.dropBlanks cs with
  | [] => .error .tooShort
  | c :: rest => if c = expected then .ok rest else .error .invalid

/-- Reads the fraction of a second, of which nine digits count. -/
def fraction (cs : List Char) : Except Refusal (Nat × List Char) :=
  match cs with
  | '.' :: rest => do
    let (value, after) ← number (some 9) rest
    let places := rest.length - after.length
    .ok (value * Nat.pow 10 (9 - places), after.dropWhile Char.isDigit)
  | cs => .ok (0, cs)

/-- The first two characters, or the reason why there are none. -/
def twoDigits (cs : List Char) : Except Refusal (Char × Char × List Char) :=
  match cs with
  | a :: b :: rest => .ok (a, b, rest)
  | [c] => if c.utf8Size < 2 then .error .tooShort else .error .invalid
  | [] => .error .tooShort

/-- Reads an offset from UTC in seconds: `Z`, or a sign, hours and minutes. -/
def offset (cs : List Char) : Except Refusal (Int × List Char) := do
  let signed (negative : Bool) (cs : List Char) : Except Refusal (Int × List Char) := do
    let (h1, h2, rest) ← twoDigits cs
    if !(h1.isDigit && h2.isDigit) then throw .invalid
    let hours := (h1.toNat - '0'.toNat) * 10 + (h2.toNat - '0'.toNat)
    let (m1, m2, rest) ← twoDigits (rest.dropWhile fun c => c == ':' || Text.isBlank c)
    if !(m1.isDigit && m2.isDigit) then throw .invalid
    if '6' ≤ m1 then throw .outOfRange
    let minutes := (m1.toNat - '0'.toNat) * 10 + (m2.toNat - '0'.toNat)
    let seconds : Int := hours * 3600 + minutes * 60
    .ok (if negative then -seconds else seconds, rest)
  match cs with
  | [] => .error .tooShort
  | 'Z' :: rest => .ok (0, rest)
  | 'z' :: rest => .ok (0, rest)
  | '+' :: rest => signed false rest
  | '-' :: rest => signed true rest
  | '\u2212' :: rest => signed true rest
  | _ => .error .invalid

/-- Reads `UTC` in any case, or an offset. -/
def zone (cs : List Char) : Except Refusal (Int × List Char) :=
  match cs with
  | a :: b :: c :: rest =>
    if a.toUpper = 'U' ∧ b.toUpper = 'T' ∧ c.toUpper = 'C' then .ok (0, rest) else offset cs
  | cs => offset cs

/-- The timestamp that a local date, time and offset denote. -/
def assemble (year : Int) (month day hour minute second nanos : Nat) (offset : Int) :
    Except Refusal Timestamp :=
  if year < Timestamp.firstYear ∨ Timestamp.lastYear < year
      ∨ Timestamp.daysOfMonth year month < day then
    .error .outOfRange
  else if offset ≤ -86400 ∨ 86400 ≤ offset then .error .outOfRange
  else
    let (whole, extra) := if second = 60 then (59, nanosPerSecond) else (second, 0)
    let days := Timestamp.daysOfDate year month day
    let local_ : Int := days * 86400 + (hour * 3600 + minute * 60 + whole : Nat)
    match Timestamp.ofParts? (local_ - offset) (nanos + extra) with
    | some t => .ok t
    | none => .error .impossible

def parse (text : String) : Except Refusal Timestamp := do
  let (y, cs) ← year text.toList
  let cs ← separator '-' cs
  let (month, cs) ← field 1 12 cs
  let cs ← separator '-' cs
  let (day, cs) ← field 1 31 cs
  let cs ← match cs with
    | [] => .error .tooShort
    | 't' :: rest => .ok rest
    | 'T' :: rest => .ok rest
    | ' ' :: rest => .ok rest
    | _ => .error .invalid
  let (hour, cs) ← field 0 23 cs
  let cs ← separator ':' cs
  let (minute, cs) ← field 0 59 cs
  let cs ← separator ':' cs
  let (second, cs) ← field 0 60 cs
  let (nanos, cs) ← fraction cs
  let (shift, cs) ← zone (Text.dropBlanks cs)
  if !(Text.dropBlanks cs).isEmpty then throw .tooLong
  assemble y month day hour minute second nanos shift

/-- The year with at least four digits, signed outside 0 to 9999. -/
def renderYear (year : Int) : String :=
  if 0 ≤ year ∧ year ≤ 9999 then Text.padded year.toNat 4
  else (if year < 0 then "-" else "+") ++ Text.padded year.natAbs 4

/-- The fraction of a second: none, or three, six or nine digits, whichever is first exact. -/
def renderFraction (nanos : Nat) : String :=
  if nanos = 0 then ""
  else if nanos % 1000000 = 0 then "." ++ Text.padded (nanos / 1000000) 3
  else if nanos % 1000 = 0 then "." ++ Text.padded (nanos / 1000) 6
  else "." ++ Text.padded nanos 9

def render (t : Timestamp) : String :=
  let days := t.second / 86400
  let inDay := (t.second % 86400).toNat
  let second := inDay % 60 + if t.isLeap then 1 else 0
  let nanos := if t.isLeap then t.fraction - nanosPerSecond else t.fraction
  let (year, month, day) := Timestamp.dateOfDays days
  renderYear year ++ "-" ++ Text.padded month 2 ++ "-" ++ Text.padded day 2 ++ "T" ++
    Text.padded (inDay / 3600) 2 ++ ":" ++ Text.padded (inDay / 60 % 60) 2 ++ ":" ++
    Text.padded second 2 ++ renderFraction nanos ++ "Z"

end DurableQueue.Rfc3339
