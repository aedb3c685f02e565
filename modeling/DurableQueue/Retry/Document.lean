import DurableQueue.Data.Document
import DurableQueue.Retry.Policy

/-!
Retry policies as documents.
-/

namespace DurableQueue

def BackoffStrategy.shape : Shape :=
  .choice "enum BackoffStrategy" (BackoffStrategy.all.map fun b => (b.name, b.name, none))

def BackoffStrategy.toDatum (b : BackoffStrategy) : Datum := .choice b.name none

def BackoffStrategy.ofDatum? : Datum → Option BackoffStrategy
  | .choice tag none => BackoffStrategy.ofName? tag
  | _ => none

namespace RetryPolicy

def shape : Shape :=
  .record "struct RetryPolicy" false
    [("max_failure_retries", .required, .int .u32),
     ("base_backoff", .required, .span),
     ("max_backoff", .required, .span),
     ("jitter_factor", .required, .float),
     ("backoff_strategy", .required, BackoffStrategy.shape)]

def toDatum (p : RetryPolicy) : Datum :=
  .record [.int p.maxFailureRetries.toNat, .span p.baseBackoff, .span p.maxBackoff,
    .float p.jitterFactor, p.strategy.toDatum]

def ofDatum? : Datum → Option RetryPolicy
  | .record [limit, .span base, .span most, .float jitter, strategy] => do
    return ⟨← limit.toUInt32?, base, most, jitter, ← BackoffStrategy.ofDatum? strategy⟩
  | _ => none

end RetryPolicy

instance : Document BackoffStrategy :=
  ⟨BackoffStrategy.shape, BackoffStrategy.toDatum, BackoffStrategy.ofDatum?⟩

instance : Document RetryPolicy := ⟨RetryPolicy.shape, RetryPolicy.toDatum, RetryPolicy.ofDatum?⟩

end DurableQueue
