import DurableQueue.Time.Timestamp

/-!
A clock that is moved by hand.

A `ManualClock` counts nanoseconds since its start in 64 bits, so it starts over when the count
overflows; `ManualClock.now` stops at the latest timestamp.
-/

namespace DurableQueue

/-- A start time and the nanoseconds by which the clock was moved since. -/
structure ManualClock where
  start : Timestamp
  elapsedNanos : UInt64
deriving DecidableEq

namespace ManualClock

def startingAt (start : Timestamp) : ManualClock := ⟨start, 0⟩

/-- Moves the clock forward. A span beyond 64 bits of nanoseconds counts as the largest one. -/
def advance (c : ManualClock) (by_ : Span) : ManualClock :=
  { c with elapsedNanos := c.elapsedNanos + (Nat.min by_.nanos (UInt64.size - 1)).toUInt64 }

def elapsed (c : ManualClock) : Span :=
  ⟨c.elapsedNanos.toNat, by
    have h := c.elapsedNanos.toNat_lt
    simp only [Span.limit, nanosPerSecond, UInt64.size]
    omega⟩

def now (c : ManualClock) : Timestamp :=
  match c.start.plus? c.elapsed with
  | some t => t
  | none => .latest

theorem elapsed_advance (c : ManualClock) (by_ : Span) :
    (c.advance by_).elapsed.nanos =
      (c.elapsed.nanos + Nat.min by_.nanos (UInt64.size - 1)) % UInt64.size := by
  simp only [advance, elapsed, UInt64.toNat_add, Nat.toUInt64, UInt64.toNat_ofNat', Nat.add_mod_mod]

end ManualClock

end DurableQueue
