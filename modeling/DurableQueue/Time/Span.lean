import DurableQueue.Text.Padded

/-!
Lengths of time.

A `Span` counts nanoseconds and holds at most `2 ^ 64 - 1` seconds and a fraction. Arithmetic that
could leave this range answers `none`. `Span.render` writes a span in its largest unit, with the
exact fraction and no trailing zeros.
-/

namespace DurableQueue

def nanosPerSecond : Nat := 1000000000

/-- The first number of nanoseconds that no span holds. -/
def Span.limit : Nat := UInt64.size * nanosPerSecond

/-- A length of time in whole nanoseconds. -/
structure Span where
  nanos : Nat
  bounded : nanos < Span.limit
deriving DecidableEq

namespace Span

instance : LE Span := ⟨fun a b => a.nanos ≤ b.nanos⟩
instance : LT Span := ⟨fun a b => a.nanos < b.nanos⟩
instance (a b : Span) : Decidable (a ≤ b) := inferInstanceAs (Decidable (a.nanos ≤ b.nanos))
instance (a b : Span) : Decidable (a < b) := inferInstanceAs (Decidable (a.nanos < b.nanos))

theorem le_def {a b : Span} : a ≤ b ↔ a.nanos ≤ b.nanos := Iff.rfl

theorem lt_def {a b : Span} : a < b ↔ a.nanos < b.nanos := Iff.rfl

def zero : Span := ⟨0, by decide⟩

instance : Inhabited Span := ⟨zero⟩

def max : Span := ⟨limit - 1, by decide⟩

/-- The span of this many nanoseconds, if there is one. -/
def ofNanos? (n : Nat) : Option Span :=
  if h : n < limit then some ⟨n, h⟩ else none

/-- Whole seconds and a rest that may itself exceed a second. -/
def ofParts? (seconds rest : Nat) : Option Span := ofNanos? (seconds * nanosPerSecond + rest)

/-- Milliseconds; the range of a 64-bit count of them always fits. -/
def ofMillis (n : UInt64) : Span :=
  ⟨n.toNat * 1000000, by
    have h : n.toNat < UInt64.size := n.toNat_lt
    simp only [limit, nanosPerSecond]
    omega⟩

/-- Seconds; the range of a 64-bit count of them always fits. -/
def ofSeconds (n : UInt64) : Span :=
  ⟨n.toNat * nanosPerSecond, by
    have h : n.toNat < UInt64.size := n.toNat_lt
    simp only [limit, nanosPerSecond]
    omega⟩

def seconds (s : Span) : Nat := s.nanos / nanosPerSecond

/-- Nanoseconds past the last whole second. -/
def subsecond (s : Span) : Nat := s.nanos % nanosPerSecond

/-- Milliseconds, rounded up. -/
def millisUp (s : Span) : Nat := (s.nanos + 999999) / 1000000

/-- Whether a point in time this far away can be represented by a clock of signed 64-bit seconds that
has run for at least one second. -/
def fitsClock (s : Span) : Bool := s.seconds + 1 < Nat.pow 2 63

def min (a b : Span) : Span := if a ≤ b then a else b

/-- A multiple of a span, if it is in range. -/
def mul? (s : Span) (k : Nat) : Option Span := ofNanos? (s.nanos * k)

/-- The difference, or zero if the second span is longer. -/
def minus (a b : Span) : Span := ⟨a.nanos - b.nanos, Nat.lt_of_le_of_lt (Nat.sub_le _ _) a.bounded⟩

/-- Moves a span into the interval between two others. -/
def clamp (s low high : Span) : Span :=
  if s < low then low else if high < s then high else s

theorem min_nanos (a b : Span) : (min a b).nanos = Nat.min a.nanos b.nanos := by
  unfold min
  simp only [le_def]
  split <;> simp [Nat.min_def, *]

/-- A number with `places` decimal places, of which trailing zeros are dropped. -/
def withFraction (whole fraction places : Nat) : String :=
  let digits := (Text.padded fraction places).toList
  let kept := (digits.reverse.dropWhile (· == '0')).reverse
  if kept.isEmpty then toString whole
  else toString whole ++ "." ++ String.ofList kept

/-- A span in its largest unit of seconds, milli-, micro- and nanoseconds that is not zero. -/
def render (s : Span) : String :=
  if nanosPerSecond ≤ s.nanos then
    withFraction s.seconds s.subsecond 9 ++ "s"
  else if 1000000 ≤ s.nanos then
    withFraction (s.nanos / 1000000) (s.nanos % 1000000) 6 ++ "ms"
  else if 1000 ≤ s.nanos then
    withFraction (s.nanos / 1000) (s.nanos % 1000) 3 ++ "µs"
  else
    toString s.nanos ++ "ns"

end Span

end DurableQueue
