import DurableQueue.Dispatch.Document
import DurableQueue.Settings.Basic

/-!
Settings as documents.

A document may leave out any setting, for which the standard value then stands.
-/

namespace DurableQueue

/-- Reads a count of 64 bits. -/
def Datum.toUInt64? : Datum → Option UInt64
  | .int n => if 0 ≤ n ∧ n < UInt64.size then some n.toNat.toUInt64 else none
  | _ => none

namespace Settings

def names : List String :=
  ["mode", "max_failure_retries", "max_entries_claimed", "claimed_time_ms",
    "polling_sleep_time_ms", "event_queue_capacity", "max_dispatch_threads", "is_processing_off",
    "reaper_interval_ms", "sticky_events_fallback_ms", "shutdown_timeout_ms", "penalize_reaped",
    "retry_base_backoff_ms", "retry_max_backoff_ms", "retry_jitter_factor",
    "retry_backoff_strategy", "table_name", "history_table_name", "database_url",
    "database_max_connections", "node_id", "rust_log"]

/-- The forms of the settings in the order of their names. -/
def shapes : List Shape :=
  [QueueMode.shape, .int .u32, .int .usize, .int .u64, .int .u64, .int .usize, .int .usize, .bool,
    .int .u64, .int .u64, .int .u64, .bool, .int .u64, .int .u64, .float, BackoffStrategy.shape,
    .text, .text, .text, .int .u32, .option .text, .text]

def values (s : Settings) : List Datum :=
  let count (n : UInt64) : Datum := .int n.toNat
  [s.mode.toDatum, .int s.maxFailureRetries.toNat, count s.maxEntriesClaimed,
    count s.claimedMillis, count s.pollingSleepMillis, count s.eventQueueCapacity,
    count s.maxDispatchThreads, .bool s.isProcessingOff, count s.reaperIntervalMillis,
    count s.stickyEventsFallbackMillis, count s.shutdownTimeoutMillis, .bool s.penalizeReaped,
    count s.retryBaseBackoffMillis, count s.retryMaxBackoffMillis, .float s.retryJitterFactor,
    s.retryStrategy.toDatum, .text s.tableName, .text s.historyTableName, .text s.databaseUrl,
    .int s.databaseMaxConnections.toNat, .ofText? s.nodeId, .text s.logFilter]

def ofValues? : List Datum → Option Settings
  | [mode, retries, claimed, claimedMillis, polling, capacity, threads, .bool off, reaper, fallback,
      shutdown, .bool penalize, base, most, .float jitter, strategy, .text table, .text history,
      .text url, connections, node, .text filter] => do
    return {
      mode := ← QueueMode.ofDatum? mode, maxFailureRetries := ← retries.toUInt32?,
      maxEntriesClaimed := ← claimed.toUInt64?, claimedMillis := ← claimedMillis.toUInt64?,
      pollingSleepMillis := ← polling.toUInt64?, eventQueueCapacity := ← capacity.toUInt64?,
      maxDispatchThreads := ← threads.toUInt64?, isProcessingOff := off,
      reaperIntervalMillis := ← reaper.toUInt64?,
      stickyEventsFallbackMillis := ← fallback.toUInt64?,
      shutdownTimeoutMillis := ← shutdown.toUInt64?, penalizeReaped := penalize,
      retryBaseBackoffMillis := ← base.toUInt64?, retryMaxBackoffMillis := ← most.toUInt64?,
      retryJitterFactor := jitter, retryStrategy := ← BackoffStrategy.ofDatum? strategy,
      tableName := table, historyTableName := history, databaseUrl := url,
      databaseMaxConnections := ← connections.toUInt32?, nodeId := ← node.toText?,
      logFilter := filter }
  | _ => none

/-- The settings with their standard values and forms. -/
def fields : List (String × Fallback × Shape) :=
  names.zip ((standard.values.map Fallback.preset).zip shapes)

instance : Document Settings where
  shape := .record "struct Config" false fields
  toDatum s := .record s.values
  ofDatum?
    | .record values => ofValues? values
    | _ => none

end Settings

end DurableQueue
