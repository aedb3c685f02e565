import DurableQueue.Dispatch.Node

/-!
The steps of an attempt to process an entry.

An attempt runs the handler's effects one by one, builds the next record, stores it and is booked.
Each of these is one step on the hub and the node. `Attempt.step?` answers nothing while the handler
sleeps.
-/

namespace DurableQueue

/-- What a step leaves of an attempt. -/
inductive Progress where
  | going (a : Attempt)
  | finished
  /-- The task in which the attempt was made broke down. -/
  | brokeDown

namespace Attempt

/-- Carries out an effect of the handler; a sleep is carried out by waiting. -/
def perform (h : Hub) (n : Node) (e : Entry) : Effect → Hub × Node
  | .note note => (h.write note, n)
  | .sleep _ => (h, n)
  | .remember d => (h, { n with registry := n.registry.remember e.payload.eventType d })
  | .operate op => ((h.operate op).2, n)

/-- How an attempt is booked once its record was stored. -/
def verdict (next : Entry) (outcome : DispatchOutcome) : Verdict :=
  match next.state, outcome with
  | .processed, _ => .processed
  | .available, .handlerFailed _ => .retried
  | .failed, _ => .failed
  | _, _ => .uncounted

/-- How an attempt is booked whose record was not stored. -/
def refusal : StoreError → Verdict
  | .modifiedConcurrently _ => .lostRace
  | _ => .storeError

/-- Begins an attempt: the entry counts as in flight and its handler answers the event. -/
def begin_ (n : Node) (e : Entry) : Attempt × Node :=
  let n := n.count fun s => { s with inFlight := s.inFlight + 1 }
  match n.registry.prepare e with
  | .ok activity => (.handling e activity.effects activity.result, n)
  | .error outcome => (.judged e outcome, n)

/-- Ends an attempt: the entry is no longer in flight. -/
def leave (n : Node) : Node := n.count fun s => { s with inFlight := s.inFlight - 1 }

/-- Stores the next record, unless the operation breaks down. -/
def store (h : Hub) (n : Node) (e next : Entry) (outcome : DispatchOutcome) :
    Progress × Hub × Node :=
  match h.breakdowns.update with
  | k + 1 => (.brokeDown, { h with breakdowns := { h.breakdowns with update := k } }, leave n)
  | 0 =>
    let (answer, s) := h.store.update e next h.time
    let v := match answer with
      | .ok () => verdict next outcome
      | .error error => refusal error
    (.going (.booking e v), { h with store := s }, n)

/-- The next step of an attempt, with the jitter that is drawn if it comes to a retry. -/
def step? (draw : Draw) (h : Hub) (n : Node) : Attempt → Option (Progress × Hub × Node)
  | handling e (.sleep s :: rest) result => some (.going (.sleeping e (h.after s) rest result), h, n)
  | handling e (effect :: rest) result => some (.going (.handling e rest result), perform h n e effect)
  | handling e [] result => some (.going (.judged e (result.outcome e.payload.eventType)), h, n)
  | sleeping e wakeAt effects result =>
    if wakeAt ≤ h.now then some (.going (.handling e effects result), h, n) else none
  | judged e outcome =>
    match outcome.nextEntry n.config.retryPolicy draw e (n.time h) with
    | some next => some (.going (.storing e next outcome), h, n)
    | none => some (.brokeDown, h, leave n)
  | storing e next outcome => some (store h n e next outcome)
  | booking _ v => some (.finished, h, leave (n.count fun s => s.book v))

def wakeTime? : Attempt → Option Nat
  | sleeping _ wakeAt _ _ => some wakeAt
  | _ => none

end Attempt

end DurableQueue
