import DurableQueue.Text.Quoted

/-!
What can go wrong with locks, and the directories in which they live.

`lockDirectory` accepts pairs of non-empty components without a slash; `lockDirectory_eq_ok_iff`
says so.
-/

namespace DurableQueue

/-- Why a lock operation failed. -/
inductive LockError where
  /-- The coordination service failed the operation. -/
  | coordination (detail : String)
  /-- The session that held the lock node is gone, and the node with it. -/
  | sessionExpired (path : String)
  | connectionLoss
  /-- A service or key that cannot be part of a path. -/
  | invalidPath (component : String)
deriving DecidableEq, Repr

namespace LockError

def message : LockError → String
  | coordination detail => "coordination failure: " ++ detail
  | sessionExpired path => "session expired, lock node " ++ path ++ " no longer exists"
  | connectionLoss => "connection to coordination service lost"
  | invalidPath component => "invalid lock path component: " ++ Text.quoted component

/-- Whether the operation may succeed once the session recovers. -/
def isTransient : LockError → Bool
  | connectionLoss => true
  | _ => false

end LockError

/-- Whether a text can be one component of a path. -/
def isPathComponent (s : String) : Bool := !s.isEmpty && !s.toList.contains '/'

/-- The directory of the lock of a service and a key. -/
def lockDirectory (service key : String) : Except LockError String :=
  if !isPathComponent service then .error (.invalidPath service)
  else if !isPathComponent key then .error (.invalidPath key)
  else .ok ("/" ++ service ++ "/" ++ key)

theorem lockDirectory_eq_ok_iff {service key dir : String} :
    lockDirectory service key = .ok dir ↔
      isPathComponent service = true ∧ isPathComponent key = true ∧
        dir = "/" ++ service ++ "/" ++ key := by
  unfold lockDirectory
  cases isPathComponent service <;> cases isPathComponent key <;> simp [eq_comm]

end DurableQueue
