import DurableQueue.Store.Error
import DurableQueue.Time.Span

/-!
What can go wrong while entries are claimed and dispatched.

Decoding and handler failures become states of entries; the other errors reach the caller.
`DispatchError.ofStore` is the view that dispatching takes of a store error.
-/

namespace DurableQueue

/-- Why claiming, dispatching or managing workers failed. -/
inductive DispatchError where
  | decode (eventType detail : String)
  | handler (eventType detail : String)
  | storeUnavailable (detail : String)
  /-- An update lost its race. -/
  | resolvedElsewhere (id : EntryId)
  | configuration (detail : String)
  /-- The workers did not finish within the grace period. -/
  | shutdownTimeout (grace : Span)
  | workerPanic (worker : Nat) (detail : String)
  | internal (detail : String)
deriving DecidableEq

/-- The kinds of trouble that a log tells apart. -/
inductive ErrorCategory where
  | decode
  | handler
  | store
  | configuration
  | internal
deriving DecidableEq, Repr

def ErrorCategory.name : ErrorCategory → String
  | decode => "decode"
  | handler => "handler"
  | store => "store"
  | configuration => "configuration"
  | internal => "internal"

namespace DispatchError

def message : DispatchError → String
  | decode eventType detail => "cannot decode " ++ eventType ++ " payload: " ++ detail
  | handler eventType detail => "handler for " ++ eventType ++ " failed: " ++ detail
  | storeUnavailable detail => "store unavailable: " ++ detail
  | resolvedElsewhere id => "entry " ++ id.text ++ " was resolved elsewhere"
  | configuration detail => "invalid configuration: " ++ detail
  | shutdownTimeout grace => "shutdown did not complete within " ++ grace.render
  | workerPanic worker detail => "worker " ++ toString worker ++ " panicked: " ++ detail
  | internal detail => "internal dispatch error: " ++ detail

def isRetryable : DispatchError → Bool
  | handler _ _ | storeUnavailable _ => true
  | _ => false

def category : DispatchError → ErrorCategory
  | decode _ _ => .decode
  | handler _ _ => .handler
  | storeUnavailable _ | resolvedElsewhere _ => .store
  | configuration _ => .configuration
  | shutdownTimeout _ | workerPanic _ _ | internal _ => .internal

def ofStore : StoreError → DispatchError
  | .modifiedConcurrently id => resolvedElsewhere id
  | .invalidInput detail => configuration detail
  | .invalidMove id source target => internal (StoreError.invalidMove id source target).message
  | e => storeUnavailable e.message

end DispatchError

end DurableQueue
