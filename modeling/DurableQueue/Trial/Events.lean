import DurableQueue.Dispatch.Handler
import DurableQueue.Entry.Document

/-!
Events for trials of the bus.

A job says how its handler behaves. Numbers and shapes exercise the forms of documents, a marked
event carries free text, and a pair-keyed event can be encoded only while it is empty.
-/

namespace DurableQueue.Trial

/-- A job: its name, how long it takes, what its handler does, and a number for that. -/
structure Job where
  name : String
  sleepMillis : UInt64
  act : String
  times : UInt32
deriving DecidableEq

def jobs : EventType :=
  { name := "job"
    shape := .record "struct Job" false
      [("name", .required, .text),
       ("sleep_ms", .preset (.int 0), .int .u64),
       ("act", .preset (.text "ok"), .text),
       ("times", .preset (.int 0), .int .u32)] }

def Job.ofDatum? : Datum → Option Job
  | .record [.text name, .int sleep, .text act, times] => do
    return ⟨name, sleep.toNat.toUInt64, act, ← times.toUInt32?⟩
  | _ => none

/-- Numbers of several ranges, with no other field. -/
def numbers : EventType :=
  { name := "numbers"
    shape := .record "struct Numbers" true
      [("a", .required, .int .u8), ("b", .required, .int .i64), ("c", .required, .bool),
       ("d", .optional, .option .text), ("e", .required, .list (.int .i32))] }

/-- One of three shapes, each of its own form. -/
def shapes : EventType :=
  { name := "shape"
    shape := .choice "enum Shape"
      [("Circle", "Circle",
         some (.record "struct variant Shape::Circle" false [("r", .required, .int .u32)])),
       ("Square", "Square", some (.int .u32)),
       ("Point", "Point", none)] }

/-- An object under keys that are pairs. -/
def pairKeyed : EventType :=
  { name := "bad.key"
    shape := .record "struct BadKey" false [("map", .required, .pairKeyed)] }

/-- A pair-keyed event of this many keys. -/
def pairKeyedEvent (count : Nat) : Datum := .record [.keyed count]

/-- Events of free text under a marker. -/
def markedEvents : EventType :=
  { name := "test.event"
    shape := .record "struct TestEvent" false
      [("marker", .required, .text), ("body", .required, .text)] }

/-- Free text under a marker. -/
structure MarkedEvent where
  marker : String
  body : String
deriving DecidableEq, Repr

namespace MarkedEvent

def toDatum (e : MarkedEvent) : Datum := .record [.text e.marker, .text e.body]

def ofDatum? : Datum → Option MarkedEvent
  | .record [.text marker, .text body] => some ⟨marker, body⟩
  | _ => none

theorem ofDatum?_toDatum (e : MarkedEvent) : ofDatum? e.toDatum = some e := rfl

instance : Document MarkedEvent := ⟨markedEvents.shape, toDatum, ofDatum?⟩

def payload (e : MarkedEvent) : Payload :=
  ⟨markedEvents.name,
    (Json.writeObject
      [("marker", Json.writeText e.marker), ("body", Json.writeText e.body)]).toUTF8.toList⟩

theorem encode_toDatum (e : MarkedEvent) : markedEvents.encode e.toDatum = .ok e.payload := rfl

end MarkedEvent

def eventTypes : List EventType := [jobs, numbers, shapes, markedEvents, pairKeyed]

end DurableQueue.Trial
