import DurableQueue.Dispatch.ClaimManager
import DurableQueue.Dispatch.Hub
import DurableQueue.Dispatch.Outcome

/-!
One dispatcher and its tasks.

A `Node` holds the configuration and the handlers of a dispatcher, its counters, the queue of
claimed entries, and where each of its tasks is: the workers, the claim loop and the reaper. The
tasks take their steps in modules of their own; here are their places and the node itself.
-/

namespace DurableQueue

/-- What a dispatcher did since it was created. -/
structure DispatchStats where
  claimed : Nat
  processed : Nat
  /-- Failures after which the entry is tried again. -/
  retried : Nat
  failed : Nat
  /-- Resolutions of entries that were resolved elsewhere. -/
  lostRaces : Nat
  /-- Entries whose attempt is in progress. -/
  inFlight : Nat
  activeWorkers : Nat
  /-- Claims that were not made for want of room in the queue. -/
  skippedClaimCycles : Nat
  reaped : Nat
  storeErrors : Nat
deriving DecidableEq, Repr

def DispatchStats.zero : DispatchStats := ⟨0, 0, 0, 0, 0, 0, 0, 0, 0, 0⟩

/-- How an attempt is booked. -/
inductive Verdict where
  | processed
  | retried
  | failed
  | lostRace
  | storeError
  /-- It goes by without being counted. -/
  | uncounted
deriving DecidableEq, Repr

/-- Books an attempt. -/
def DispatchStats.book (s : DispatchStats) : Verdict → DispatchStats
  | .processed => { s with processed := s.processed + 1 }
  | .retried => { s with retried := s.retried + 1 }
  | .failed => { s with failed := s.failed + 1 }
  | .lostRace => { s with lostRaces := s.lostRaces + 1 }
  | .storeError => { s with storeErrors := s.storeErrors + 1 }
  | .uncounted => s

/-- Where an attempt to process an entry is. -/
inductive Attempt where
  /-- The handler has these effects before it. -/
  | handling (e : Entry) (effects : List Effect) (result : HandlerResult)
  /-- The handler sleeps. -/
  | sleeping (e : Entry) (wakeAt : Nat) (effects : List Effect) (result : HandlerResult)
  /-- The outcome is known; the next record is to be built. -/
  | judged (e : Entry) (outcome : DispatchOutcome)
  /-- The next record is to be stored. -/
  | storing (e next : Entry) (outcome : DispatchOutcome)
  /-- The attempt is to be booked. -/
  | booking (e : Entry) (verdict : Verdict)

def Attempt.entry : Attempt → Entry
  | handling e _ _ | sleeping e _ _ _ | judged e _ | storing e _ _ | booking e _ => e

/-- Where a worker is. -/
inductive Worker where
  /-- It waits for an entry. -/
  | idle
  | busy (a : Attempt)
  | stopped

/-- Where the claim loop is. -/
inductive ClaimLoop where
  /-- It is about to look whether the queue has room. -/
  | checking
  | claiming
  /-- It puts claimed entries into the queue; `full` says whether as many were claimed as asked. -/
  | sending (rest : List Entry) (full : Bool)
  /-- After a full claim it lets the workers go first. -/
  | yielding
  /-- It waits for a commit or a time. -/
  | waiting (deadline : Nat)
  /-- It took a commit and is about to take the others; `own` says whether the one was its node's. -/
  | draining (own : Bool) (deadline : Nat)
  | stopped
deriving DecidableEq

/-- Where the reaper is. -/
inductive Reaper where
  | sleeping (wakeAt : Nat)
  | reaping
  | stopped
deriving DecidableEq

/-- Which time a dispatcher reads when it schedules a retry. -/
inductive NodeClock where
  /-- The time of the hub. -/
  | shared
  /-- A time of its own that stands still. -/
  | fixed (t : Timestamp)
deriving DecidableEq

/-- A dispatcher and its tasks. -/
structure Node where
  id : NodeId
  config : DispatchConfig
  registry : Registry
  clock : NodeClock
  /-- Whether it hears of commits. -/
  isAttached : Bool
  isStarted : Bool
  /-- Whether its tasks were told to stop. -/
  isCancelled : Bool
  stats : DispatchStats
  /-- Claimed entries that wait for a worker. -/
  queue : List Entry
  workers : List Worker
  /-- The claim loop, once started. -/
  claimLoop : Option ClaimLoop
  /-- The reaper, once started. -/
  reaper : Option Reaper
  /-- Where the claim loop hears of commits. -/
  subscription : Option SubscriptionId

namespace Node

/-- A new dispatcher, not started. -/
def create (id : NodeId) (config : DispatchConfig) (registry : Registry) (clock : NodeClock)
    (isAttached : Bool) : Except DispatchError Node := do
  config.validate
  return {
    id, config, registry, clock, isAttached, isStarted := false, isCancelled := false,
    stats := .zero, queue := [], workers := [], claimLoop := none, reaper := none,
    subscription := none }

/-- On whose behalf and how the dispatcher claims. -/
def claims (n : Node) : ClaimManager := ⟨n.id, n.config.mode, n.config.reapPolicy⟩

/-- The time by which the dispatcher schedules retries. -/
def time (n : Node) (h : Hub) : Timestamp :=
  match n.clock with
  | .shared => h.time
  | .fixed t => t

def count (n : Node) (f : DispatchStats → DispatchStats) : Node := { n with stats := f n.stats }

/-- Free places in the queue. -/
def room (n : Node) : Nat := n.config.eventQueueCapacity - n.queue.length

/-- Whether nothing will be put into the queue any more. -/
def isQueueClosed (n : Node) : Bool :=
  match n.claimLoop with
  | none | some .stopped => true
  | _ => false

/-- Whether claim loop and reaper have stopped. -/
def isBackgroundOver (n : Node) : Bool :=
  n.isQueueClosed &&
    match n.reaper with
    | none | some .stopped => true
    | _ => false

/-- Whether all workers have stopped. -/
def areWorkersOver (n : Node) : Bool :=
  n.workers.all fun
    | .stopped => true
    | _ => false

def withClaimLoop (n : Node) (c : ClaimLoop) : Node := { n with claimLoop := some c }

def withWorker (n : Node) (i : Nat) (w : Worker) : Node := { n with workers := n.workers.set i w }

def describe (n : Node) : String :=
  "Dispatcher \x7b node_id: " ++ n.id.describe ++ ", engine: Memory, config: " ++
    n.config.describe ++ ", registry: " ++ n.registry.describe ++ ", started: " ++
    DispatchConfig.describeBool n.isStarted ++ ", .. \x7d"

end Node

end DurableQueue
