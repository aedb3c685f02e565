import DurableQueue.Dispatch.Attempt

/-!
The steps of a dispatcher's own tasks.

The claim loop claims a batch whenever the queue has room for a whole one, and then waits for a
commit of its node or for a time. The workers take entries from the queue and process them. The
reaper takes back orphaned claims now and then. Each function here makes one step of one task, and
answers nothing while the task has to wait.
-/

namespace DurableQueue

namespace Worker

/-- The next step of the worker with this number. -/
def step? (draw : Draw) (h : Hub) (n : Node) (i : Nat) : Option (Hub × Node) :=
  match n.workers[i]? with
  | some idle =>
    if n.isCancelled then some (h, n.withWorker i stopped)
    else match n.queue with
      | e :: rest =>
        let (a, n) := Attempt.begin_ { n with queue := rest } e
        some (h, n.withWorker i (busy a))
      | [] => if n.isQueueClosed then some (h, n.withWorker i stopped) else none
  | some (busy a) =>
    (a.step? draw h n).map fun
      | (.going a, h, n) => (h, n.withWorker i (busy a))
      | (.finished, h, n) => (h, n.withWorker i idle)
      | (.brokeDown, h, n) => (h, n.withWorker i stopped)
  | some stopped | none => none

def wakeTime? : Worker → Option Nat
  | busy a => a.wakeTime?
  | _ => none

/-- A worker that is made to stop at once; the entry of its attempt is no longer in flight. -/
def abort (n : Node) (i : Nat) : Node :=
  match n.workers[i]? with
  | some (busy _) => Attempt.leave (n.withWorker i stopped)
  | _ => n.withWorker i stopped

end Worker

namespace ClaimLoop

/-- Ends the claim loop, and with it its subscription. -/
def stop (h : Hub) (n : Node) : Hub × Node :=
  let h := match n.subscription with
    | some id => { h with notifier := h.notifier.unsubscribe id }
    | none => h
  (h, { n with claimLoop := some stopped, subscription := none })

/-- Lets the claim loop wait for a commit or a time. -/
def wait (h : Hub) (n : Node) : Hub × Node :=
  (h, n.withClaimLoop (waiting (h.after n.config.claimInterval)))

/-- Looks whether the queue has room for a batch. -/
def check (h : Hub) (n : Node) : Hub × Node :=
  if n.isCancelled then stop h n
  else if n.room < n.config.maxEntriesClaimed then
    wait h (n.count fun s => { s with skippedClaimCycles := s.skippedClaimCycles + 1 })
  else (h, n.withClaimLoop claiming)

/-- Claims a batch. -/
def claim (h : Hub) (n : Node) : Hub × Node :=
  match h.breakdowns.claim with
  | k + 1 => stop { h with breakdowns := { h.breakdowns with claim := k } } n
  | 0 =>
    let asked := n.config.maxEntriesClaimed
    match n.claims.claim h.store asked h.time with
    | (.ok entries, s) =>
      let n := n.count fun c => { c with claimed := c.claimed + entries.length }
      ({ h with store := s }, n.withClaimLoop (sending entries (entries.length == asked)))
    | (.error _, s) =>
      wait { h with store := s } (n.count fun c => { c with storeErrors := c.storeErrors + 1 })

/-- Looks at what the claim loop waits for: to be told to stop, a commit, a time. -/
def awake? (h : Hub) (n : Node) (deadline : Nat) : Option (Hub × Node) :=
  if n.isCancelled then some (stop h n)
  else
    let received : Option (TransactionEvent × Notifier) :=
      n.subscription.bind fun id =>
        match h.notifier.receive id with
        | (some e, notifier) => some (e, notifier)
        | (none, _) => none
    match received with
    | some (e, notifier) =>
      some ({ h with notifier }, n.withClaimLoop (draining (e.owner == n.id) deadline))
    | none => if deadline ≤ h.now then some (h, n.withClaimLoop checking) else none

/-- Takes the other commits; a commit of the node ends the wait. -/
def drain (h : Hub) (n : Node) (own : Bool) (deadline : Nat) : Hub × Node :=
  match n.subscription with
  | none => (h, n.withClaimLoop (waiting deadline))
  | some id =>
    let (events, notifier) := h.notifier.drain id
    let own := own || events.any fun e => e.owner == n.id
    ({ h with notifier }, n.withClaimLoop (if own then checking else waiting deadline))

/-- The next step of the claim loop. -/
def step? (h : Hub) (n : Node) : Option (Hub × Node) :=
  match n.claimLoop with
  | some checking => some (check h n)
  | some claiming => some (claim h n)
  | some (sending (e :: rest) full) =>
    if n.room = 0 then none
    else some (h, { n with queue := n.queue ++ [e] }.withClaimLoop (sending rest full))
  | some (sending [] full) => some (if full then (h, n.withClaimLoop yielding) else wait h n)
  | some yielding => some (h, n.withClaimLoop checking)
  | some (waiting deadline) => awake? h n deadline
  | some (draining own deadline) => some (drain h n own deadline)
  | some stopped | none => none

def wakeTime? : ClaimLoop → Option Nat
  | waiting deadline => some deadline
  | _ => none

end ClaimLoop

namespace Reaper

def sleep (h : Hub) (n : Node) : Node :=
  { n with reaper := some (sleeping (h.after n.config.reaperInterval)) }

def reap (h : Hub) (n : Node) : Hub × Node :=
  match h.breakdowns.reap with
  | k + 1 =>
    ({ h with breakdowns := { h.breakdowns with reap := k } }, { n with reaper := some stopped })
  | 0 =>
    match n.claims.reap h.store h.time with
    | (.ok entries, s) =>
      let n := n.count fun c => { c with reaped := c.reaped + entries.length }
      ({ h with store := s }, sleep h n)
    | (.error _, s) =>
      let n := n.count fun c => { c with storeErrors := c.storeErrors + 1 }
      ({ h with store := s }, sleep h n)

/-- The next step of the reaper. -/
def step? (h : Hub) (n : Node) : Option (Hub × Node) :=
  match n.reaper with
  | some (sleeping wakeAt) =>
    if n.isCancelled then some (h, { n with reaper := some stopped })
    else if wakeAt ≤ h.now then some (h, { n with reaper := some reaping })
    else none
  | some reaping => some (reap h n)
  | some stopped | none => none

def wakeTime? : Reaper → Option Nat
  | sleeping wakeAt => some wakeAt
  | _ => none

end Reaper

namespace Node

/-- The largest queue that can be made. -/
def largestQueue : Nat := Nat.pow 2 61 - 1

/-- How an attempt to start a dispatcher ends. -/
inductive StartResult where
  | ok
  | error (e : DispatchError)
  /-- A queue of this size cannot be made. -/
  | panicked

def start (h : Hub) (n : Node) : StartResult × Hub × Node :=
  if n.isStarted then (.error (.internal "dispatcher already started"), h, n)
  else if n.config.isProcessingOff then (.ok, h, { n with isStarted := true })
  else if n.config.mode = .stickyEvents ∧ !n.isAttached then
    (.error (.configuration "STICKY_EVENTS mode requires a commit notifier"), h, n)
  else if largestQueue < n.config.eventQueueCapacity then (.panicked, h, n)
  else
    let (subscription, notifier) : Option SubscriptionId × Notifier :=
      if n.config.mode = .stickyEvents then
        let (id, notifier) := h.notifier.subscribe
        (some id, notifier)
      else (none, h.notifier)
    let h := { h with notifier }
    let workers := List.replicate n.config.maxDispatchThreads Worker.idle
    let n := n.count fun s => { s with activeWorkers := n.config.maxDispatchThreads }
    let n := { n with isStarted := true, workers, claimLoop := some .checking, subscription }
    (.ok, h, Reaper.sleep h n)

def cancel (n : Node) : Node := { n with isCancelled := true }

/-- Makes claim loop and reaper stop at once. -/
def abortBackground (h : Hub) (n : Node) : Hub × Node :=
  let (h, n) := ClaimLoop.stop h n
  (h, { n with reaper := some .stopped })

/-- Makes all workers stop at once. -/
def abortWorkers (n : Node) : Node := (List.range n.workers.length).foldl Worker.abort n

/-- Appends an encoded event in the name of the dispatcher. -/
def post (h : Hub) (n : Node) (t : EventType) (event : Datum) (keys : SearchKeys) :
    Except DispatchError EntryId × Hub :=
  match t.encode event with
  | .error e => (.error e, h)
  | .ok payload =>
    match h.append ⟨payload, n.id, keys⟩ with
    | (.ok e, h) => (.ok e.id, h)
    | (.error e, h) => (.error (.ofStore e), h)

end Node

end DurableQueue
