import DurableQueue.Dispatch.Mode
import DurableQueue.Retry.Policy
import DurableQueue.Store.Reap

/-!
The configuration of a dispatcher.

`DispatchConfig.validate` reports the first value that no dispatcher can work with.
-/

namespace DurableQueue

/-- How one dispatcher works. -/
structure DispatchConfig where
  mode : QueueMode
  /-- Entries that one claim asks for. -/
  maxEntriesClaimed : Nat
  /-- Claims older than this are taken back. -/
  claimedTime : Span
  /-- The pause between claims in the modes with a timer. -/
  pollingSleepTime : Span
  /-- Claimed entries that may wait for a worker. -/
  eventQueueCapacity : Nat
  maxDispatchThreads : Nat
  /-- Whether entries are only accepted and never claimed. -/
  isProcessingOff : Bool
  /-- The pause between two rounds of the reaper. -/
  reaperInterval : Span
  /-- The pause after which a claim is made although no commit was announced. -/
  stickyEventsFallback : Span
  /-- How long workers may finish their entry at shutdown. -/
  shutdownTimeout : Span
  /-- Whether being taken back counts as a failed attempt. -/
  penalizeReaped : Bool
  retryPolicy : RetryPolicy

namespace DispatchConfig

def standard : DispatchConfig :=
  { mode := .polling, maxEntriesClaimed := 10, claimedTime := .ofSeconds 300,
    pollingSleepTime := .ofSeconds 1, eventQueueCapacity := 100, maxDispatchThreads := 4,
    isProcessingOff := false, reaperInterval := .ofSeconds 30,
    stickyEventsFallback := .ofSeconds 30, shutdownTimeout := .ofSeconds 30,
    penalizeReaped := false, retryPolicy := .standard }

instance : Inhabited DispatchConfig := ⟨standard⟩

/-- How claims are taken back under this configuration. -/
def reapPolicy (c : DispatchConfig) : ReapPolicy :=
  ⟨c.claimedTime, c.retryPolicy.maxFailureRetries, c.penalizeReaped⟩

/-- The pause after which a claim is made in any case. -/
def claimInterval (c : DispatchConfig) : Span :=
  match c.mode with
  | .polling | .stickyPolling => c.pollingSleepTime
  | .stickyEvents => c.stickyEventsFallback

def validate (c : DispatchConfig) : Except DispatchError Unit := do
  if c.maxDispatchThreads = 0 then
    throw (.configuration "max_dispatch_threads must be greater than 0")
  if c.maxEntriesClaimed = 0 then
    throw (.configuration "max_entries_claimed must be greater than 0")
  if c.eventQueueCapacity < c.maxEntriesClaimed then
    throw (.configuration "event_queue_capacity must be at least max_entries_claimed")
  if c.claimedTime = .zero then
    throw (.configuration "claimed_time must be greater than 0")
  if c.pollingSleepTime = .zero ∨ c.reaperInterval = .zero ∨ c.stickyEventsFallback = .zero then
    throw (.configuration "loop intervals must be greater than 0")
  c.retryPolicy.validate

def describeBool (b : Bool) : String := if b then "true" else "false"

def describe (c : DispatchConfig) : String :=
  "DispatchConfig \x7b mode: " ++ c.mode.label ++
    ", max_entries_claimed: " ++ toString c.maxEntriesClaimed ++
    ", claimed_time: " ++ c.claimedTime.render ++
    ", polling_sleep_time: " ++ c.pollingSleepTime.render ++
    ", event_queue_capacity: " ++ toString c.eventQueueCapacity ++
    ", max_dispatch_threads: " ++ toString c.maxDispatchThreads ++
    ", is_processing_off: " ++ describeBool c.isProcessingOff ++
    ", reaper_interval: " ++ c.reaperInterval.render ++
    ", sticky_events_fallback: " ++ c.stickyEventsFallback.render ++
    ", shutdown_timeout: " ++ c.shutdownTimeout.render ++
    ", penalize_reaped: " ++ describeBool c.penalizeReaped ++
    ", retry_policy: RetryPolicy \x7b max_failure_retries: " ++
    toString c.retryPolicy.maxFailureRetries.toNat ++
    ", base_backoff: " ++ c.retryPolicy.baseBackoff.render ++
    ", max_backoff: " ++ c.retryPolicy.maxBackoff.render ++
    ", jitter_factor: " ++ Binary64.render .diagnostic c.retryPolicy.jitterFactor ++
    ", backoff_strategy: " ++ c.retryPolicy.strategy.label ++ " \x7d \x7d"

end DispatchConfig

end DurableQueue
