import DurableQueue.Dispatch.Node
import DurableQueue.Retry.Document

/-!
Configurations and counters of dispatchers as documents.
-/

namespace DurableQueue

namespace DispatchConfig

def shape : Shape :=
  .record "struct DispatchConfig" false
    [("mode", .required, QueueMode.shape),
     ("max_entries_claimed", .required, .int .usize),
     ("claimed_time", .required, .span),
     ("polling_sleep_time", .required, .span),
     ("event_queue_capacity", .required, .int .usize),
     ("max_dispatch_threads", .required, .int .usize),
     ("is_processing_off", .required, .bool),
     ("reaper_interval", .required, .span),
     ("sticky_events_fallback", .required, .span),
     ("shutdown_timeout", .required, .span),
     ("penalize_reaped", .required, .bool),
     ("retry_policy", .required, RetryPolicy.shape)]

def toDatum (c : DispatchConfig) : Datum :=
  .record
    [c.mode.toDatum, .int c.maxEntriesClaimed, .span c.claimedTime, .span c.pollingSleepTime,
     .int c.eventQueueCapacity, .int c.maxDispatchThreads, .bool c.isProcessingOff,
     .span c.reaperInterval, .span c.stickyEventsFallback, .span c.shutdownTimeout,
     .bool c.penalizeReaped, c.retryPolicy.toDatum]

def ofDatum? : Datum → Option DispatchConfig
  | .record [mode, claimed, .span claimedTime, .span polling, capacity, threads, .bool off,
      .span reaper, .span fallback, .span shutdown, .bool penalize, policy] => do
    return {
      mode := ← QueueMode.ofDatum? mode, maxEntriesClaimed := ← claimed.toNat?, claimedTime,
      pollingSleepTime := polling, eventQueueCapacity := ← capacity.toNat?,
      maxDispatchThreads := ← threads.toNat?, isProcessingOff := off, reaperInterval := reaper,
      stickyEventsFallback := fallback, shutdownTimeout := shutdown, penalizeReaped := penalize,
      retryPolicy := ← RetryPolicy.ofDatum? policy }
  | _ => none

end DispatchConfig

namespace DispatchStats

/-- The names of the counters. -/
def names : List String :=
  ["claimed", "processed", "retried", "failed", "lost_races", "in_flight", "active_workers",
    "skipped_claim_cycles", "reaped", "store_errors"]

def toList (s : DispatchStats) : List Nat :=
  [s.claimed, s.processed, s.retried, s.failed, s.lostRaces, s.inFlight, s.activeWorkers,
    s.skippedClaimCycles, s.reaped, s.storeErrors]

def ofList? : List Nat → Option DispatchStats
  | [claimed, processed, retried, failed, lostRaces, inFlight, activeWorkers, skippedClaimCycles,
      reaped, storeErrors] =>
    some { claimed, processed, retried, failed, lostRaces, inFlight, activeWorkers,
           skippedClaimCycles, reaped, storeErrors }
  | _ => none

theorem ofList?_toList (s : DispatchStats) : ofList? s.toList = some s := rfl

end DispatchStats

instance : Document QueueMode := ⟨QueueMode.shape, QueueMode.toDatum, QueueMode.ofDatum?⟩

instance : Document DispatchConfig :=
  ⟨DispatchConfig.shape, DispatchConfig.toDatum, DispatchConfig.ofDatum?⟩

instance : Document DispatchStats where
  shape := .record "struct DispatchStats" false
    (DispatchStats.names.map fun name => (name, .required, .int .u64))
  toDatum s := .record (s.toList.map fun (n : Nat) => .int n)
  ofDatum?
    | .record counts => do DispatchStats.ofList? (← counts.mapM Datum.toNat?)
    | _ => none

end DurableQueue
