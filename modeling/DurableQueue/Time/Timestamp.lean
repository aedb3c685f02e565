import DurableQueue.Time.Span

/-!
Points in time.

A `Timestamp` is a second of the proleptic Gregorian calendar between the years -262143 and 262142
and a fraction of it. The fraction of a leap second is at least one whole second. `Timestamp.shift?`
moves a timestamp and answers `none` outside the calendar; a leap second is left behind as soon as
the shift leaves it.
-/

namespace DurableQueue

namespace Timestamp

/-- Days from 1970-01-01 to a date of the proleptic Gregorian calendar. -/
def daysOfDate (year : Int) (month day : Nat) : Int :=
  let y := if month ≤ 2 then year - 1 else year
  let era := y / 400
  let yearOfEra := y - era * 400
  let shifted := if 2 < month then month - 3 else month + 9
  let dayOfYear := (153 * shifted + 2) / 5 + day - 1
  let dayOfEra := yearOfEra * 365 + yearOfEra / 4 - yearOfEra / 100 + dayOfYear
  era * 146097 + dayOfEra - 719468

/-- The date that is this many days after 1970-01-01. -/
def dateOfDays (days : Int) : Int × Nat × Nat :=
  let z := days + 719468
  let era := z / 146097
  let dayOfEra := (z - era * 146097).toNat
  let yearOfEra := (dayOfEra - dayOfEra / 1460 + dayOfEra / 36524 - dayOfEra / 146096) / 365
  let dayOfYear := dayOfEra - (365 * yearOfEra + yearOfEra / 4 - yearOfEra / 100)
  let shifted := (5 * dayOfYear + 2) / 153
  let day := dayOfYear - (153 * shifted + 2) / 5 + 1
  let month := if shifted < 10 then shifted + 3 else shifted - 9
  let year := (yearOfEra : Int) + era * 400
  (if month ≤ 2 then year + 1 else year, month, day)

def isLeapYear (year : Int) : Bool :=
  year % 4 == 0 && (year % 100 != 0 || year % 400 == 0)

/-- Days of a month, zero for a number that is no month. -/
def daysOfMonth (year : Int) (month : Nat) : Nat :=
  match month with
  | 1 | 3 | 5 | 7 | 8 | 10 | 12 => 31
  | 4 | 6 | 9 | 11 => 30
  | 2 => if isLeapYear year then 29 else 28
  | _ => 0

def firstYear : Int := -262143

def lastYear : Int := 262142

/-- The first second of the calendar, counted from 1970-01-01T00:00:00Z. -/
def firstSecond : Int := -8334601228800

/-- The last second of the calendar. -/
def lastSecond : Int := 8210266876799

end Timestamp

/-- A point in time: seconds since 1970-01-01T00:00:00Z and nanoseconds into that second. -/
structure Timestamp where
  second : Int
  fraction : Nat
  notBefore : Timestamp.firstSecond ≤ second
  notAfter : second ≤ Timestamp.lastSecond
  fraction_lt : fraction < 2 * nanosPerSecond
deriving DecidableEq

namespace Timestamp

/-- Earlier second first, then smaller fraction. -/
def before (a b : Timestamp) : Prop :=
  a.second < b.second ∨ (a.second = b.second ∧ a.fraction < b.fraction)

instance : LT Timestamp := ⟨before⟩
instance : LE Timestamp := ⟨fun a b => ¬ before b a⟩

instance (a b : Timestamp) : Decidable (a < b) :=
  inferInstanceAs (Decidable (a.second < b.second ∨ (a.second = b.second ∧ a.fraction < b.fraction)))

instance (a b : Timestamp) : Decidable (a ≤ b) := inferInstanceAs (Decidable (¬ b < a))

theorem lt_def {a b : Timestamp} :
    a < b ↔ a.second < b.second ∨ (a.second = b.second ∧ a.fraction < b.fraction) := Iff.rfl

theorem not_lt {a b : Timestamp} : ¬ a < b ↔ b ≤ a := Iff.rfl

theorem ext {a b : Timestamp} (hs : a.second = b.second) (hf : a.fraction = b.fraction) :
    a = b := by
  cases a; cases b; cases hs; cases hf; rfl

def epoch : Timestamp := ⟨0, 0, by decide, by decide, by decide⟩

instance : Inhabited Timestamp := ⟨epoch⟩

/-- The latest timestamp outside a leap second. -/
def latest : Timestamp := ⟨lastSecond, nanosPerSecond - 1, by decide, by decide, by decide⟩

/-- The timestamp at this second and fraction, if the calendar reaches that far. -/
def ofParts? (second : Int) (fraction : Nat) : Option Timestamp :=
  if h : firstSecond ≤ second ∧ second ≤ lastSecond ∧ fraction < 2 * nanosPerSecond then
    some ⟨second, fraction, h.1, h.2.1, h.2.2⟩
  else none

/-- Whether a timestamp is in a leap second. -/
def isLeap (t : Timestamp) : Bool := nanosPerSecond ≤ t.fraction

/-- Moves a timestamp by a number of nanoseconds. A leap second is left only by a shift that
leads out of it, and counts as the second before or after it from then on. -/
def shift? (t : Timestamp) (nanos : Int) : Option Timestamp :=
  let unit : Int := nanosPerSecond
  let seconds := Int.tdiv nanos unit
  let rest := Int.tmod nanos unit
  let fraction : Int := t.fraction
  let inLeap := t.isLeap
  let leaves := 0 < seconds ∨ (0 < rest ∧ 2 * unit ≤ fraction + rest)
  if inLeap ∧ ¬ leaves ∧ ¬ seconds < 0 then
    ofParts? t.second (fraction + rest).toNat
  else
    let start := if inLeap ∧ ¬ leaves then t.second + 1 else t.second
    let total := (if inLeap then fraction - unit else fraction) + rest
    ofParts? (start + seconds + total / unit) (total % unit).toNat

/-- The timestamp a span later, if the calendar reaches that far. -/
def plus? (t : Timestamp) (s : Span) : Option Timestamp := t.shift? s.nanos

/-- The timestamp a span earlier, if the calendar reaches that far. -/
def minus? (t : Timestamp) (s : Span) : Option Timestamp := t.shift? (-(s.nanos : Int))

/-- The second by which a leap second lengthens the way from `origin` to a timestamp: the earlier
time of day of the two has to be in a leap second. -/
def leapSince (t origin : Timestamp) : Int :=
  let time := t.second % 86400
  let originTime := origin.second % 86400
  if originTime < time ∧ origin.isLeap then 1
  else if time < originTime ∧ t.isLeap then -1
  else 0

/-- Nanoseconds from one timestamp to a later one. -/
def nanosSince (t origin : Timestamp) : Int :=
  (t.second - origin.second + t.leapSince origin) * nanosPerSecond +
    ((t.fraction : Int) - origin.fraction)

/-- Whole milliseconds from one timestamp to another, rounded toward zero. -/
def millisSince (t origin : Timestamp) : Int := Int.tdiv (t.nanosSince origin) 1000000

end Timestamp

namespace Span

/-- The longest span by which a timestamp is ever moved: `2 ^ 63 - 1` milliseconds. -/
def longestShift : Nat := (Nat.pow 2 63 - 1) * 1000000

/-- Whether timestamps may be moved by this span at all. -/
def CanShift (s : Span) : Prop := s.nanos ≤ longestShift

instance (s : Span) : Decidable s.CanShift := inferInstanceAs (Decidable (_ ≤ _))

end Span

end DurableQueue
