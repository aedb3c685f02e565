import DurableQueue.Dispatch.Config
import DurableQueue.Settings.Url
import DurableQueue.Store.TableNames

/-!
The settings of a node.

`Settings` is the flat form in which a node is configured: times are milliseconds, and every setting
has a standard value. The other configurations are made from it, and `Settings.validate` reports the
first of them that cannot be worked with.
-/

namespace DurableQueue

/-- The settings of a node. -/
structure Settings where
  mode : QueueMode
  maxFailureRetries : UInt32
  maxEntriesClaimed : UInt64
  claimedMillis : UInt64
  pollingSleepMillis : UInt64
  eventQueueCapacity : UInt64
  maxDispatchThreads : UInt64
  isProcessingOff : Bool
  reaperIntervalMillis : UInt64
  stickyEventsFallbackMillis : UInt64
  shutdownTimeoutMillis : UInt64
  penalizeReaped : Bool
  retryBaseBackoffMillis : UInt64
  retryMaxBackoffMillis : UInt64
  retryJitterFactor : Float
  retryStrategy : BackoffStrategy
  tableName : String
  historyTableName : String
  databaseUrl : String
  databaseMaxConnections : UInt32
  /-- The identity of the node; a node without one makes up its own. -/
  nodeId : Option String
  logFilter : String

/-- Why settings cannot be worked with. -/
inductive SettingsError where
  | noConnections
  | emptyNodeId
  | tables (e : StoreError)
  | dispatch (e : DispatchError)

def SettingsError.message : SettingsError → String
  | noConnections => "database_max_connections must be greater than 0"
  | emptyNodeId => "node_id cannot be empty"
  | tables e => e.message
  | dispatch e => e.message

namespace Settings

def standard : Settings :=
  { mode := .polling, maxFailureRetries := 5, maxEntriesClaimed := 10, claimedMillis := 300000,
    pollingSleepMillis := 1000, eventQueueCapacity := 100, maxDispatchThreads := 4,
    isProcessingOff := false, reaperIntervalMillis := 30000, stickyEventsFallbackMillis := 30000,
    shutdownTimeoutMillis := 30000, penalizeReaped := false, retryBaseBackoffMillis := 1000,
    retryMaxBackoffMillis := 300000, retryJitterFactor := 0.1, retryStrategy := .exponential,
    tableName := TableNames.standard.table, historyTableName := TableNames.standard.history,
    databaseUrl := "postgresql://localhost/spool", databaseMaxConnections := 10, nodeId := none,
    logFilter := "info" }

instance : Inhabited Settings := ⟨standard⟩

def retryPolicy (s : Settings) : RetryPolicy :=
  { maxFailureRetries := s.maxFailureRetries, baseBackoff := .ofMillis s.retryBaseBackoffMillis,
    maxBackoff := .ofMillis s.retryMaxBackoffMillis, jitterFactor := s.retryJitterFactor,
    strategy := s.retryStrategy }

def dispatchConfig (s : Settings) : DispatchConfig :=
  { mode := s.mode, maxEntriesClaimed := s.maxEntriesClaimed.toNat,
    claimedTime := .ofMillis s.claimedMillis, pollingSleepTime := .ofMillis s.pollingSleepMillis,
    eventQueueCapacity := s.eventQueueCapacity.toNat,
    maxDispatchThreads := s.maxDispatchThreads.toNat, isProcessingOff := s.isProcessingOff,
    reaperInterval := .ofMillis s.reaperIntervalMillis,
    stickyEventsFallback := .ofMillis s.stickyEventsFallbackMillis,
    shutdownTimeout := .ofMillis s.shutdownTimeoutMillis, penalizeReaped := s.penalizeReaped,
    retryPolicy := s.retryPolicy }

def tableNames (s : Settings) : TableNames := ⟨s.tableName, s.historyTableName⟩

/-- The database address without its password. -/
def redactedDatabaseUrl (s : Settings) : String := Url.redact s.databaseUrl

def validate (s : Settings) : Except SettingsError Unit := do
  if s.databaseMaxConnections = 0 then throw .noConnections
  if s.nodeId = some "" then throw .emptyNodeId
  s.tableNames.validate.mapError .tables
  s.dispatchConfig.validate.mapError .dispatch

end Settings

end DurableQueue
