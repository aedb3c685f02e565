import DurableQueue.Data.Document
import DurableQueue.Entry.Basic

/-!
Entries as documents.

Each type of an entry has a `shape`, a conversion to `Datum` and one back; the two conversions are
inverse to each other on the values that a reader of the shape produces.
-/

namespace DurableQueue

def EntryId.shape : Shape := .int .i64

def NodeId.shape : Shape := .text

namespace EntryState

/-- The form of states: their stored names. -/
def shape : Shape := .choice "enum EntryState" (all.map fun s => (s.name, s.name, none))

def toDatum (s : EntryState) : Datum := .choice s.name none

def ofDatum? : Datum → Option EntryState
  | .choice tag none => ofName? tag
  | _ => none

theorem ofDatum?_toDatum (s : EntryState) : ofDatum? s.toDatum = some s := ofName?_name s

end EntryState

namespace Payload

def shape : Shape :=
  .record "struct Payload" false
    [("event_type", .required, .text), ("body", .required, .list (.int .u8))]

def toDatum (p : Payload) : Datum := .record [.text p.eventType, .ofBytes p.body]

def ofDatum? : Datum → Option Payload
  | .record [.text eventType, body] => do return ⟨eventType, ← body.toBytes?⟩
  | _ => none

end Payload

namespace SearchKeys

def shape : Shape :=
  .record "struct SearchKeys" false
    [("key1", .optional, .option .text), ("key2", .optional, .option .text)]

def toDatum (k : SearchKeys) : Datum := .record [.ofText? k.key1, .ofText? k.key2]

def ofDatum? : Datum → Option SearchKeys
  | .record [key1, key2] => do return ⟨← key1.toText?, ← key2.toText?⟩
  | _ => Option.none

end SearchKeys

namespace Entry

def shape : Shape :=
  .record "struct Entry" false
    [("id", .required, EntryId.shape),
     ("payload", .required, Payload.shape),
     ("creating_owner", .required, NodeId.shape),
     ("processing_owner", .optional, .option NodeId.shape),
     ("state", .required, EntryState.shape),
     ("error_count", .required, .int .u32),
     ("created_time", .required, .time),
     ("updated_time", .required, .time),
     ("next_available_time", .required, .time),
     ("search_keys", .required, SearchKeys.shape)]

def toDatum (e : Entry) : Datum :=
  .record
    [.int e.id.number, e.payload.toDatum, .text e.creatingOwner.name,
     .ofText? (e.processingOwner.map NodeId.name), e.state.toDatum, .int e.errorCount.toNat,
     .time e.createdTime, .time e.updatedTime, .time e.nextAvailableTime, e.searchKeys.toDatum]

def ofDatum? : Datum → Option Entry
  | .record [.int id, payload, .text creator, owner, state, count, .time created, .time updated,
      .time next, keys] => do
    return {
      id := ⟨id⟩, payload := ← Payload.ofDatum? payload, creatingOwner := ⟨creator⟩,
      processingOwner := (← owner.toText?).map NodeId.mk, state := ← EntryState.ofDatum? state,
      errorCount := ← count.toUInt32?, createdTime := created, updatedTime := updated,
      nextAvailableTime := next, searchKeys := ← SearchKeys.ofDatum? keys }
  | _ => none

end Entry

namespace Document

instance : Document EntryId := ⟨EntryId.shape, fun id => .int id.number, fun d => d.toInt?.map .mk⟩
instance : Document NodeId := ⟨NodeId.shape, fun n => .text n.name, fun d => d.toString?.map .mk⟩
instance : Document EntryState := ⟨EntryState.shape, EntryState.toDatum, EntryState.ofDatum?⟩
instance : Document Payload := ⟨Payload.shape, Payload.toDatum, Payload.ofDatum?⟩
instance : Document SearchKeys := ⟨SearchKeys.shape, SearchKeys.toDatum, SearchKeys.ofDatum?⟩
instance : Document Entry := ⟨Entry.shape, Entry.toDatum, Entry.ofDatum?⟩

end Document

end DurableQueue
