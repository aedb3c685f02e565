import DurableQueue.Entry.Basic

/-!
What can go wrong in a store.

A `StoreError` says whether trying again may help, and `DatabaseFailure.toStoreError` sorts the
failures of a database connection into store errors.
-/

namespace DurableQueue

/-- Why a store refused or failed an operation. -/
inductive StoreError where
  /-- The database failed. -/
  | database (detail : String)
  /-- The store cannot be reached. -/
  | unavailable (detail : String)
  | notFound (what : String)
  /-- The stored entry is no longer the claim that the caller holds. -/
  | modifiedConcurrently (id : EntryId)
  /-- The lifecycle has no such move. -/
  | invalidMove (id : EntryId) (source target : EntryState)
  | invalidInput (detail : String)
deriving DecidableEq, Repr

namespace StoreError

def message : StoreError → String
  | database detail => "database error: " ++ detail
  | unavailable detail => "store unavailable: " ++ detail
  | notFound what => "not found: " ++ what
  | modifiedConcurrently id => "entry " ++ id.text ++ " was modified concurrently"
  | invalidMove id source target =>
    "entry " ++ id.text ++ " cannot move from " ++ source.name ++ " to " ++ target.name
  | invalidInput detail => "invalid input: " ++ detail

/-- Whether the operation may succeed later. -/
def isTransient : StoreError → Bool
  | unavailable _ | database _ => true
  | _ => false

def injected : StoreError := unavailable "injected failure"

/-- The error of a name that is no state. -/
def unknownState (name : String) : StoreError := invalidInput ("unknown entry state: " ++ name)

/-- The error of an entry that is not live. -/
def noEntry (id : EntryId) : StoreError := notFound ("entry " ++ id.text)

end StoreError

/-- The state of a stored name, or the error of a name that is none. -/
def EntryState.parse (s : String) : Except StoreError EntryState :=
  match EntryState.ofName? s with
  | some state => .ok state
  | none => .error (.unknownState s)

/-- Failures of a database connection. -/
inductive DatabaseFailure where
  | rowNotFound
  | poolTimedOut
  | poolClosed
  | workerCrashed
  | communication (detail : String)
  | protocol (detail : String)
  | columnNotFound (column : String)
  /-- The database answered with an error of its own. -/
  | refused (checkViolation : Bool) (detail : String)
deriving DecidableEq, Repr

namespace DatabaseFailure

def message : DatabaseFailure → String
  | rowNotFound => "no rows returned by a query that expected to return at least one row"
  | poolTimedOut => "pool timed out while waiting for an open connection"
  | poolClosed => "attempted to acquire a connection on a closed pool"
  | workerCrashed => "attempted to communicate with a crashed background worker"
  | communication detail => "error communicating with database: " ++ detail
  | protocol detail => "encountered unexpected or invalid data: " ++ detail
  | columnNotFound column => "no column found for name: " ++ column
  | refused _ detail => "error returned from database: " ++ detail

/-- What a store reports for a failure. -/
def toStoreError : DatabaseFailure → StoreError
  | rowNotFound => .notFound "requested entry not found"
  | poolTimedOut => .unavailable poolTimedOut.message
  | poolClosed => .unavailable poolClosed.message
  | communication detail => .unavailable (communication detail).message
  | refused true detail => .invalidInput ("check constraint violation: " ++ detail)
  | failure => .database failure.message

end DatabaseFailure

end DurableQueue
