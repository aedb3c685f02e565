import DurableQueue.Lock.Acquisition
import DurableQueue.Lock.Local
import DurableQueue.Time.Span

/-!
Calls that take a lock.

A `LockCall` carries a request through its whole life: it begins, waits in a queue of the process or
as a contender of the coordination service, and ends with a `GlobalLock`, with nothing at the
deadline, or with an error.
-/

namespace DurableQueue

/-- Where locks live. -/
inductive LockBackend where
  /-- In this process. -/
  | inProcess
  /-- In the coordination service. -/
  | shared
deriving DecidableEq, Repr

/-- What a held lock rests on. -/
inductive LockHold where
  | inProcess (path : String)
  /-- A node that a client created. -/
  | shared (client : Nat) (node : String)
deriving DecidableEq, Repr

/-- A lock that was acquired. -/
structure GlobalLock where
  service : String
  key : String
  hold : LockHold
deriving DecidableEq, Repr

namespace GlobalLock

def describe (l : GlobalLock) : String :=
  "GlobalLock \x7b service: " ++ Text.quoted l.service ++ ", key: " ++ Text.quoted l.key ++
    ", released: false \x7d"

end GlobalLock

/-- What someone asks who wants a lock. -/
structure LockRequest where
  /-- The number of the client through which it asks. -/
  client : Nat
  service : String
  key : String
  /-- After which it gives up. -/
  timeout : Span

/-- How a call ends. -/
inductive LockOutcome where
  | acquired (lock : GlobalLock)
  | timedOut
  | failed (error : LockError)
  /-- The clock cannot represent the deadline. -/
  | panicked
deriving DecidableEq, Repr

namespace LockOutcome

def lock? : LockOutcome → Option GlobalLock
  | acquired lock => some lock
  | _ => none

end LockOutcome

/-- How far a call has come. -/
inductive LockProgress where
  /-- It has not begun. -/
  | fresh
  | inProcess (w : LocalWait)
  | shared (a : Acquisition)
  | over (outcome : LockOutcome)
  /-- It was aborted and is gone. -/
  | gone

/-- A call that takes a lock. -/
structure LockCall where
  request : LockRequest
  progress : LockProgress
  /-- Whether it is to stop at its next step. -/
  isAborted : Bool
  /-- Whether nobody waits for its outcome; a lock that it acquires is dropped. -/
  isDetached : Bool

namespace LockCall

def ofRequest (r : LockRequest) : LockCall := ⟨r, .fresh, false, false⟩

def outcome? (c : LockCall) : Option LockOutcome :=
  match c.progress with
  | .over outcome => some outcome
  | _ => none

def acquisition? (c : LockCall) : Option Acquisition :=
  match c.progress with
  | .shared a => some a
  | _ => none

def wakeTime? (c : LockCall) : Option Nat :=
  match c.progress with
  | .inProcess w => w.wakeTime?
  | .shared a => a.wakeTime?
  | _ => none

/-- A call begins: its path is checked, then its deadline. -/
def begin_ (r : LockRequest) (backend : LockBackend) (now : Nat) (c : Coordination) :
    LockProgress :=
  match lockDirectory r.service r.key with
  | .error e => .over (.failed e)
  | .ok directory =>
    if !r.timeout.fitsClock then .over .panicked
    else
      let deadline := now + r.timeout.millisUp
      match backend with
      | .inProcess => .inProcess (.begin_ directory deadline)
      | .shared => .shared (.begin_ c r.client directory deadline)

/-- How far a call has come whose wait in this process goes on. -/
def ofWait (r : LockRequest) (w : LocalWait) : LockProgress :=
  match w.stage with
  | .over true => .over (.acquired ⟨r.service, r.key, .inProcess w.path⟩)
  | .over false => .over .timedOut
  | _ => .inProcess w

/-- How far a call has come whose contender goes on. -/
def ofAcquisition (r : LockRequest) (a : Acquisition) : LockProgress :=
  match a.stage with
  | .over (.ok (some node)) => .over (.acquired ⟨r.service, r.key, .shared a.client node⟩)
  | .over (.ok none) => .over .timedOut
  | .over (.error e) => .over (.failed e)
  | _ => .shared a

end LockCall

end DurableQueue
