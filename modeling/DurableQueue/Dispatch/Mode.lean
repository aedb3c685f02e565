import DurableQueue.Data.Shape

/-!
Modes of the queue: what starts a claim, and whose entries are claimed.
-/

namespace DurableQueue

/-- What starts a claim, and whose entries are claimed. -/
inductive QueueMode where
  /-- A timer; entries of any node. -/
  | polling
  /-- A timer; entries that the node itself created. -/
  | stickyPolling
  /-- Commits, and now and then a timer; entries that the node itself created. -/
  | stickyEvents
deriving DecidableEq, Repr, Inhabited

namespace QueueMode

def all : List QueueMode := [polling, stickyPolling, stickyEvents]

def name : QueueMode → String
  | polling => "POLLING"
  | stickyPolling => "STICKY_POLLING"
  | stickyEvents => "STICKY_EVENTS"

/-- The name of a mode in lower case, which is accepted too. -/
def lowerName : QueueMode → String
  | polling => "polling"
  | stickyPolling => "sticky_polling"
  | stickyEvents => "sticky_events"

def label : QueueMode → String
  | polling => "Polling"
  | stickyPolling => "StickyPolling"
  | stickyEvents => "StickyEvents"

def ofName? (s : String) : Option QueueMode := all.find? fun m => m.name == s || m.lowerName == s

/-- Whether only entries that the node itself created are claimed. -/
def isSticky : QueueMode → Bool
  | polling => false
  | stickyPolling | stickyEvents => true

/-- The form of modes: either name. -/
def shape : Shape :=
  .choice "enum PersistentQueueMode"
    (all.flatMap fun m => [(m.name, m.name, none), (m.lowerName, m.name, none)])

def toDatum (m : QueueMode) : Datum := .choice m.name none

def ofDatum? : Datum → Option QueueMode
  | .choice tag none => ofName? tag
  | _ => none

theorem ofDatum?_toDatum (m : QueueMode) : ofDatum? m.toDatum = some m := by cases m <;> rfl

end QueueMode

end DurableQueue
