import DurableQueue.Dispatch.Mode
import DurableQueue.Retry.Policy
import DurableQueue.Trial.Invariant

/-!
Values for trials of many cases.

A generator of names knows every value that it can produce. Generated retry policies lie in
`PolicyRange`, of which `PolicyRange.corners` are the extremes.
-/

namespace DurableQueue.Trial

/-- Strings in ascending order. -/
def sorted (names : List String) : List String := names.mergeSort fun a b => decide (a ≤ b)

/-- The names that a generator produces when it draws often enough. -/
def drawn (names : List String) (samples : Nat) : List String :=
  if samples = 0 then [] else sorted names

/-- The nodes of a trial; there is at least one. -/
def nodeNames (count : Nat) : List String :=
  (List.range (Nat.max count 1)).map fun i => "node-" ++ toString i

namespace PolicyRange

/-- Whether the limit of a policy is in range. -/
def limit (p : RetryPolicy) : Bool :=
  1 ≤ p.maxFailureRetries.toNat && p.maxFailureRetries.toNat < 20

/-- Whether the base of a policy is in range. -/
def base (p : RetryPolicy) : Bool :=
  1000000 ≤ p.baseBackoff.nanos && p.baseBackoff.nanos < 5000 * 1000000

/-- Whether the span between base and longest delay is in range. -/
def extra (p : RetryPolicy) : Bool :=
  p.baseBackoff ≤ p.maxBackoff && (p.maxBackoff.minus p.baseBackoff).nanos < 600000 * 1000000

/-- Whether the base of a policy is in whole milliseconds. -/
def wholeMillis (p : RetryPolicy) : Bool := p.baseBackoff.nanos % 1000000 == 0

/-- Whether the jitter of a policy is in range. -/
def jitter (p : RetryPolicy) : Bool := 0.0 ≤ p.jitterFactor && p.jitterFactor ≤ 1.0

def isValid (p : RetryPolicy) : Bool :=
  match p.validate with
  | .ok () => true
  | .error _ => false

/-- Whether the delays of a policy do not shrink, drawn in turn with much and little jitter. -/
def isNonDecreasing (p : RetryPolicy) : Bool :=
  let delays := (List.range (p.maxFailureRetries.toNat - 1)).map fun i =>
    p.delay (p.jitter (if i % 2 = 0 then 1.0 else 0.0)) (i + 1).toUInt32
  match delays.mapM id with
  | some delays =>
    match Invariant.nonDecreasing delays with
    | .ok () => true
    | .error _ => false
  | none => false

/-- Whether delay and decision after a number of failures stay between this step and the next,
whatever is drawn, and whether the policy gives up exactly at its limit. -/
def staysInBounds (p : RetryPolicy) (count : UInt32) (failedAt : Timestamp) (draws : List Draw) :
    Bool :=
  let low := p.backoff count
  let next := p.backoff (countFailure count)
  let high := if low ≤ next then next else low
  let isBetween (nanos : Int) : Bool := low.nanos ≤ nanos && nanos ≤ high.nanos
  let isSpent : Bool := p.maxFailureRetries ≤ count
  draws.all fun draw =>
    match p.delay draw count, p.decide draw count failedAt with
    | some delay, some decision =>
      isBetween delay.nanos &&
        match decision with
        | .retry t => !isSpent && isBetween (t.nanosSince failedAt)
        | .giveUp (.limitReached _) => isSpent
        | .giveUp _ => !isSpent
    | _, _ => false

def corners : List RetryPolicy :=
  [1, 19].flatMap fun limit =>
    [1, 4999].flatMap fun base =>
      [0, 599999].flatMap fun extra =>
        [0.0, 1.0].flatMap fun jitterFactor =>
          BackoffStrategy.all.map fun strategy =>
            { maxFailureRetries := limit, baseBackoff := .ofMillis base,
              maxBackoff := .ofMillis (base + extra), jitterFactor, strategy }

end PolicyRange

end DurableQueue.Trial
