import DurableQueue.Dispatch.Handler
import DurableQueue.Retry.Policy

/-!
Attempts to dispatch an entry, and what becomes of it.

`Registry.prepare` finds the handler of an entry and decodes its body. How the attempt ends is a
`DispatchOutcome`, and `DispatchOutcome.nextEntry` is the record that replaces the claimed one.
-/

namespace DurableQueue

/-- How an attempt to dispatch an entry ended. -/
inductive DispatchOutcome where
  | processed
  /-- The handler failed or broke down. -/
  | handlerFailed (detail : String)
  /-- No handler could be given an event. -/
  | undecodable (reason : String)
deriving DecidableEq

/-- Finds the handler of an entry and lets it answer the event; without a handler or an event the
attempt is over. -/
def Registry.prepare (r : Registry) (e : Entry) : Except DispatchOutcome Activity :=
  match r.find? e.payload.eventType with
  | none =>
    .error (.undecodable ("no handler registered for event type " ++ e.payload.eventType))
  | some h =>
    match h.handler.eventType.decode e.payload.body with
    | .error reason => .error (.undecodable reason)
    | .ok event => .ok (h.handler.react h.deliveries event (.of e))

/-- The outcome of an attempt whose handler ended. -/
def HandlerResult.outcome (eventType : String) : HandlerResult → DispatchOutcome
  | .succeeded => .processed
  | .failed detail => .handlerFailed (DispatchError.handler eventType detail).message
  | .panicked detail =>
    .handlerFailed ("handler for " ++ eventType ++ " panicked: " ++
      match detail with
      | some text => text
      | none => "non-string panic payload")

/-- An attempt away from any store: its outcome, what the handler noted, and the registry with what
the handler remembers. -/
def Registry.attempt (r : Registry) (e : Entry) : DispatchOutcome × List Note × Registry :=
  match r.prepare e with
  | .error outcome => (outcome, [], r)
  | .ok activity =>
    let notes := activity.effects.filterMap fun
      | .note n => some n
      | _ => none
    let remember (r : Registry) : Effect → Registry
      | .remember d => r.remember e.payload.eventType d
      | _ => r
    (activity.result.outcome e.payload.eventType, notes, activity.effects.foldl remember r)

/-- The record that replaces a claimed entry; none if the drawn delay is beyond every span. The
record has no owner and is not in processing. -/
def DispatchOutcome.nextEntry (outcome : DispatchOutcome) (policy : RetryPolicy) (draw : Draw)
    (claimed : Entry) (now : Timestamp) : Option Entry :=
  let base := { claimed with processingOwner := none, updatedTime := now }
  match outcome with
  | .processed => some { base with state := .processed }
  | .undecodable _ =>
    some { base with errorCount := countFailure claimed.errorCount, state := .failed }
  | .handlerFailed _ =>
    let count := countFailure claimed.errorCount
    (policy.decide draw count now).map fun
      | .retry time =>
        { base with errorCount := count, state := .available, nextAvailableTime := time }
      | .giveUp _ => { base with errorCount := count, state := .failed }

theorem DispatchOutcome.canMoveTo_nextEntry {outcome : DispatchOutcome} {policy : RetryPolicy}
    {draw : Draw} {claimed next : Entry} {now : Timestamp}
    (h : outcome.nextEntry policy draw claimed now = some next) :
    EntryState.inProcessing.canMoveTo next.state = true := by
  cases outcome with
  | processed => simp [nextEntry] at h; subst h; rfl
  | undecodable reason => simp [nextEntry] at h; subst h; rfl
  | handlerFailed detail =>
    simp only [nextEntry, Option.map_eq_some_iff] at h
    obtain ⟨decision, _, rfl⟩ := h
    cases decision <;> rfl

end DurableQueue
