/-!
The lifecycle of an entry.

An entry waits, is claimed, and ends in one of three terminal states or waits again.
`EntryState.canMoveTo` is the graph of these moves; `not_canMoveTo_of_isTerminal` says that nothing
leads out of a terminal state.
-/

namespace DurableQueue

/-- Where an entry is in its lifecycle. -/
inductive EntryState where
  /-- Waiting to be claimed. -/
  | available
  /-- Claimed by one node. -/
  | inProcessing
  /-- The handler succeeded. -/
  | processed
  /-- The retries are spent or the payload cannot be processed. -/
  | failed
  /-- An orphaned claim whose retries were spent. -/
  | reaped
deriving DecidableEq, Repr, Inhabited

namespace EntryState

def all : List EntryState := [available, inProcessing, processed, failed, reaped]

def name : EntryState → String
  | available => "AVAILABLE"
  | inProcessing => "IN_PROCESSING"
  | processed => "PROCESSED"
  | failed => "FAILED"
  | reaped => "REAPED"

def label : EntryState → String
  | available => "Available"
  | inProcessing => "InProcessing"
  | processed => "Processed"
  | failed => "Failed"
  | reaped => "Reaped"

def ofName? (s : String) : Option EntryState := all.find? fun state => state.name == s

/-- Whether a state is never left again. -/
def isTerminal : EntryState → Bool
  | processed | failed | reaped => true
  | available | inProcessing => false

/-- The moves of the lifecycle. -/
def canMoveTo : EntryState → EntryState → Bool
  | available, inProcessing => true
  | inProcessing, available => true
  | inProcessing, processed => true
  | inProcessing, failed => true
  | inProcessing, reaped => true
  | _, _ => false

theorem ofName?_name (s : EntryState) : ofName? s.name = some s := by cases s <;> rfl

theorem not_canMoveTo_of_isTerminal {s : EntryState} (h : s.isTerminal = true) (t : EntryState) :
    s.canMoveTo t = false := by
  cases s <;> cases t <;> first | rfl | contradiction

end EntryState

end DurableQueue
