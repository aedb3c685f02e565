/-!
The states of a contender for a coordinated lock.

A contender owns no node, or a node behind others, or the first node. `LockState.next` moves it
along with the signals that reach it, `LockState.after` through a list of them. Expiry and the
deadline lead back to the beginning from every state: `next_of_resets`.
-/

namespace DurableQueue

/-- How far a contender has come. -/
inductive LockState where
  /-- It owns no node. -/
  | unlocked
  /-- It owns a node; one before it is still there. -/
  | waiting (node : String)
  /-- Its node is the first. -/
  | held (node : String)
deriving DecidableEq, Repr

/-- What moves a contender. -/
inductive LockSignal where
  /-- Its node was created. -/
  | created (node : String)
  /-- Its node is now the first. -/
  | acquired
  /-- The node before its own is gone. -/
  | predecessorDeleted
  /-- The connection was lost. -/
  | sessionLost
  /-- The connection is back within the session. -/
  | sessionRestored
  /-- The session expired, and the contender's node with it. -/
  | sessionExpired
  /-- The deadline has passed. -/
  | timedOut
deriving DecidableEq, Repr

namespace LockSignal

/-- The signal of a name; a node's creation has none. -/
def ofName? : String → Option LockSignal
  | "Acquired" => some acquired
  | "PredecessorDeleted" => some predecessorDeleted
  | "SessionLost" => some sessionLost
  | "SessionRestored" => some sessionRestored
  | "SessionExpired" => some sessionExpired
  | "TimedOut" => some timedOut
  | _ => none

/-- Whether a signal brings every contender back to the beginning. -/
def resets : LockSignal → Bool
  | sessionExpired | timedOut => true
  | _ => false

end LockSignal

namespace LockState

def next : LockState → LockSignal → LockState
  | unlocked, .created node => waiting node
  | waiting node, .acquired => held node
  | _, .sessionExpired => unlocked
  | _, .timedOut => unlocked
  | s, _ => s

/-- The state after signals that come one after the other. -/
def after (s : LockState) (signals : List LockSignal) : LockState := signals.foldl next s

/-- The states that signals lead through. -/
def trail (s : LockState) : List LockSignal → List LockState
  | [] => []
  | signal :: rest => s.next signal :: (s.next signal).trail rest

/-- The contender's node. -/
def node? : LockState → Option String
  | unlocked => none
  | waiting node => some node
  | held node => some node

theorem next_of_resets (s : LockState) {signal : LockSignal} (h : signal.resets = true) :
    s.next signal = unlocked := by
  cases signal <;> simp [LockSignal.resets] at h <;> cases s <;> rfl

end LockState

end DurableQueue
