import DurableQueue.Entry.Document
import DurableQueue.Notifier.Basic

/-!
Finished transactions as documents.
-/

namespace DurableQueue

namespace TransactionOutcome

def name : TransactionOutcome → String
  | commit => "commit"
  | rollback => "rollback"

def shape : Shape :=
  .choice "enum TransactionOutcome" ([commit, rollback].map fun o => (o.name, o.name, none))

def ofDatum? : Datum → Option TransactionOutcome
  | .choice "commit" none => some commit
  | .choice "rollback" none => some rollback
  | _ => none

theorem ofDatum?_name (o : TransactionOutcome) : ofDatum? (.choice o.name none) = some o := by
  cases o <;> rfl

end TransactionOutcome

namespace TransactionEvent

def shape : Shape :=
  .record "struct TransactionEvent" false
    [("outcome", .required, TransactionOutcome.shape), ("ids", .required, .list EntryId.shape),
     ("owner", .required, NodeId.shape)]

def toDatum (e : TransactionEvent) : Datum :=
  .record [.choice e.outcome.name none, .list (e.entryIds.map fun id => .int id.number),
    .text e.owner.name]

def ofDatum? : Datum → Option TransactionEvent
  | .record [outcome, .list ids, .text owner] => do
    return ⟨← TransactionOutcome.ofDatum? outcome, (← ids.mapM Datum.toInt?).map EntryId.mk, ⟨owner⟩⟩
  | _ => none

end TransactionEvent

instance : Document TransactionEvent :=
  ⟨TransactionEvent.shape, TransactionEvent.toDatum, TransactionEvent.ofDatum?⟩

end DurableQueue
