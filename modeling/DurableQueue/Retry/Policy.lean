import DurableQueue.Decimal.Binary64
import DurableQueue.Dispatch.Error

/-!
Retries with a growing delay.

A `RetryPolicy` bounds the number of failed attempts and spaces them out. `RetryPolicy.backoff` is
the delay of a step without jitter, and `RetryPolicy.delay` adds the jitter that a `Draw` supplies,
but never goes past the next step: whatever is drawn, delays do not shrink. `RetryPolicy.decide`
says when a failed entry is tried again, or why it is not.
-/

namespace DurableQueue

/-- How the delay grows. -/
inductive BackoffStrategy where
  /-- The same delay after every failure. -/
  | fixed
  /-- The delay doubles with every failure. -/
  | exponential
  /-- The delay grows by the base with every failure. -/
  | linear
deriving DecidableEq, Repr

namespace BackoffStrategy

def all : List BackoffStrategy := [fixed, exponential, linear]

def name : BackoffStrategy → String
  | fixed => "fixed"
  | exponential => "exponential"
  | linear => "linear"

def label : BackoffStrategy → String
  | fixed => "Fixed"
  | exponential => "Exponential"
  | linear => "Linear"

def ofName? (s : String) : Option BackoffStrategy := all.find? fun b => b.name == s

theorem ofName?_name (b : BackoffStrategy) : ofName? b.name = some b := by cases b <;> rfl

end BackoffStrategy

/-- How often and after which delays a failed entry is tried again. -/
structure RetryPolicy where
  /-- Failed attempts after which an entry has failed for good. -/
  maxFailureRetries : UInt32
  /-- The delay after the first failure. -/
  baseBackoff : Span
  /-- The longest delay. -/
  maxBackoff : Span
  /-- Jitter as a fraction of the delay, from nought to one. -/
  jitterFactor : Float
  strategy : BackoffStrategy

/-- What jitter makes of a delay before it is kept within its bounds; none if the drawn delay is
beyond every span. -/
abbrev Draw := Span → Option Span

/-- Why a failed entry is not tried again. -/
inductive GiveUp where
  | limitReached (limit : UInt32)
  | delayOutOfRange
  | timeOutOfRange
deriving DecidableEq

def GiveUp.message : GiveUp → String
  | limitReached limit => "maximum failure retries (" ++ toString limit.toNat ++ ") reached"
  | delayOutOfRange => "retry delay out of range"
  | timeOutOfRange => "retry time out of range"

/-- What becomes of a failed entry. -/
inductive RetryDecision where
  | retry (nextAvailableTime : Timestamp)
  | giveUp (reason : GiveUp)
deriving DecidableEq

namespace RetryPolicy

def standard : RetryPolicy :=
  { maxFailureRetries := 5, baseBackoff := .ofSeconds 1, maxBackoff := .ofSeconds 300,
    jitterFactor := 0.1, strategy := .exponential }

instance : Inhabited RetryPolicy := ⟨standard⟩

/-- By how much the base is multiplied at a step, counted from one. Beyond the range of 32 bits the
doubling stops. -/
def factor (strategy : BackoffStrategy) (step : Nat) : Nat :=
  match strategy with
  | .fixed => 1
  | .linear => step
  | .exponential => Nat.pow 2 (Nat.min (step - 1) 31)

/-- The delay after a number of failures, without jitter. -/
def backoff (p : RetryPolicy) (count : UInt32) : Span :=
  match p.baseBackoff.mul? (factor p.strategy (Nat.max count.toNat 1)) with
  | some s => s.min p.maxBackoff
  | none => p.maxBackoff

/-- The delay after a number of failures, with jitter. -/
def delay (p : RetryPolicy) (draw : Draw) (count : UInt32) : Option Span :=
  let low := p.backoff count
  let high := p.backoff (countFailure count)
  if p.jitterFactor ≤ 0.0 ∨ high ≤ low then some low
  else (draw low).map fun s => s.clamp low high

/-- The jitter of the policy for a number between nought and one. -/
def jitter (p : RetryPolicy) (u : Float) : Draw := fun s =>
  let seconds := Binary64.ofSpan s
  let share := if p.jitterFactor < 1.0 then p.jitterFactor else 1.0
  Binary64.toSpan? (seconds + seconds * share * u)

/-- Decides about an entry whose error count is `count` after a failure; none if the drawn delay is
beyond every span. -/
def decide (p : RetryPolicy) (draw : Draw) (count : UInt32) (failedAt : Timestamp) :
    Option RetryDecision :=
  if p.maxFailureRetries ≤ count then some (.giveUp (.limitReached p.maxFailureRetries))
  else
    (p.delay draw count).map fun delay =>
      if delay.CanShift then
        match failedAt.plus? delay with
        | some t => .retry t
        | none => .giveUp .timeOutOfRange
      else .giveUp .delayOutOfRange

/-- Checks the policy. -/
def validate (p : RetryPolicy) : Except DispatchError Unit := do
  if p.maxFailureRetries = 0 then
    throw (.configuration "max_failure_retries must be greater than 0")
  if p.maxBackoff < p.baseBackoff then
    throw (.configuration "base backoff cannot exceed max backoff")
  if !(0.0 ≤ p.jitterFactor && p.jitterFactor ≤ 1.0) then
    throw (.configuration "jitter factor must be between 0.0 and 1.0")

end RetryPolicy

end DurableQueue
