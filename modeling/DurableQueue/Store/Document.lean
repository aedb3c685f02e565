import DurableQueue.Entry.Document
import DurableQueue.Store.Reap
import DurableQueue.Store.TableNames

/-!
Settings of a store as documents.
-/

namespace DurableQueue

namespace ReapPolicy

def shape : Shape :=
  .record "struct ReapPolicy" false
    [("claim_timeout", .required, .span), ("max_failure_retries", .required, .int .u32),
     ("penalize", .required, .bool)]

def toDatum (p : ReapPolicy) : Datum :=
  .record [.span p.claimTimeout, .int p.maxFailureRetries.toNat, .bool p.penalize]

def ofDatum? : Datum → Option ReapPolicy
  | .record [.span claimTimeout, limit, .bool penalize] => do
    return ⟨claimTimeout, ← limit.toUInt32?, penalize⟩
  | _ => none

end ReapPolicy

namespace TableNames

def shape : Shape :=
  .record "struct TableNames" false [("table", .required, .text), ("history", .required, .text)]

def toDatum (t : TableNames) : Datum := .record [.text t.table, .text t.history]

def ofDatum? : Datum → Option TableNames
  | .record [.text table, .text history] => some ⟨table, history⟩
  | _ => none

theorem ofDatum?_toDatum (t : TableNames) : ofDatum? t.toDatum = some t := rfl

end TableNames

instance : Document ReapPolicy := ⟨ReapPolicy.shape, ReapPolicy.toDatum, ReapPolicy.ofDatum?⟩

instance : Document TableNames := ⟨TableNames.shape, TableNames.toDatum, TableNames.ofDatum?⟩

end DurableQueue
