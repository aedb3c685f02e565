import DurableQueue.Dispatch.Error
import DurableQueue.Json.Reader
import DurableQueue.Json.Writer
import DurableQueue.Store.Basic

/-!
Events and their handlers.

An `EventType` names the events that share a form and encodes them. A `Handler` answers an event with
an `Activity`: what it does, one `Effect` after the other, and how it ends. A `Registry` holds at
most one handler for each event type and what each handler remembers of earlier deliveries.
-/

namespace DurableQueue

/-- The events of one name, which share a form. -/
structure EventType where
  name : String
  shape : Shape

namespace EventType

def encode (t : EventType) (event : Datum) : Except DispatchError Payload :=
  match Json.write t.shape event with
  | some text => .ok ⟨t.name, text.toUTF8.toList⟩
  | none => .error (.internal ("failed to encode " ++ t.name ++ ": " ++ "key must be a string"))

/-- Decodes the body of a payload, or says why it cannot be decoded. -/
def decode (t : EventType) (body : List UInt8) : Except String Datum :=
  match Json.readAll t.shape body with
  | .ok event => .ok event
  | .error fault => .error (fault.messageIn body)

end EventType

/-- What a handler is told about the entry that it handles. -/
structure DispatchContext where
  entryId : EntryId
  /-- Failed attempts before this one. -/
  errorCount : UInt32
  creatingOwner : NodeId
  searchKeys : SearchKeys
deriving DecidableEq

/-- The context of an entry. -/
def DispatchContext.of (e : Entry) : DispatchContext :=
  ⟨e.id, e.errorCount, e.creatingOwner, e.searchKeys⟩

/-- An event that was handed to a handler. -/
structure Delivery where
  entryId : EntryId
  event : Datum
  errorCount : UInt32

/-- A line that a handler writes in the journal. -/
structure Note where
  node : NodeId
  phase : String
  context : DispatchContext
  event : Option Datum

/-- One thing that a handler does. -/
inductive Effect where
  /-- Writes a line in the journal. -/
  | note (n : Note)
  | sleep (span : Span)
  /-- Remembers a delivery. -/
  | remember (d : Delivery)
  /-- Operates on the store, whatever the store answers. -/
  | operate (op : StoreOp)

/-- How a handler ends. -/
inductive HandlerResult where
  | succeeded
  | failed (detail : String)
  /-- The handler broke down, perhaps without a text to say why. -/
  | panicked (detail : Option String)
deriving DecidableEq

/-- What a handler does and how it ends. -/
structure Activity where
  effects : List Effect
  result : HandlerResult

/-- A handler of the events of one type. What it does depends on the deliveries that it remembers,
the event and the context. -/
structure Handler where
  eventType : EventType
  react : List Delivery → Datum → DispatchContext → Activity

/-- A handler and what it remembers. -/
structure RegisteredHandler where
  handler : Handler
  deliveries : List Delivery

/-- At most one handler for each event type. -/
structure Registry where
  handlers : List RegisteredHandler

namespace Registry

def empty : Registry := ⟨[]⟩

instance : Inhabited Registry := ⟨empty⟩

/-- The handler of an event type. -/
def find? (r : Registry) (eventType : String) : Option RegisteredHandler :=
  r.handlers.find? fun h => h.handler.eventType.name == eventType

def contains (r : Registry) (eventType : String) : Bool := (r.find? eventType).isSome

/-- Registers a handler; an earlier one for the same event type is replaced. -/
def register (r : Registry) (h : Handler) : Registry :=
  ⟨(r.handlers.filter fun old => old.handler.eventType.name != h.eventType.name) ++ [⟨h, []⟩]⟩

def ofList (handlers : List Handler) : Registry := handlers.foldl register empty

/-- The event types that have a handler, sorted. -/
def eventTypes (r : Registry) : List String :=
  (r.handlers.map fun h => h.handler.eventType.name).mergeSort fun a b => decide (a ≤ b)

/-- Lets the handler of an event type remember a delivery. -/
def remember (r : Registry) (eventType : String) (d : Delivery) : Registry :=
  ⟨r.handlers.map fun h =>
    if h.handler.eventType.name == eventType then { h with deliveries := h.deliveries ++ [d] }
    else h⟩

/-- What the handler of an event type remembers. -/
def deliveries (r : Registry) (eventType : String) : List Delivery :=
  match r.find? eventType with
  | some h => h.deliveries
  | none => []

def describe (r : Registry) : String :=
  "HandlerRegistry \x7b event_types: " ++ Text.bracketed (r.eventTypes.map Text.quoted) ++ " \x7d"

theorem find?_register (r : Registry) (h : Handler) :
    (r.register h).find? h.eventType.name = some ⟨h, []⟩ := by
  have none_before : (r.handlers.filter fun old => old.handler.eventType.name != h.eventType.name).find?
      (fun old => old.handler.eventType.name == h.eventType.name) = none := by
    rw [List.find?_eq_none]
    intro x hx
    have := (List.mem_filter.1 hx).2
    simpa using this
  simp [register, find?, List.find?_append, none_before]

end Registry

end DurableQueue
