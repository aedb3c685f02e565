import DurableQueue.Store.Basic
import DurableQueue.Store.TableNames

/-!
The client side of a store in a relational database.

`Relational.check` decides, before a connection is used, which operations are refused and which are
answered at once. `Relational.applyDetached` is the store whose connection pool is closed: whatever
passes the checks fails for want of a connection.
-/

namespace DurableQueue.Relational

/-- What the client decides about an operation on its own. -/
inductive Decision where
  | answer (a : StoreAnswer)
  | refuse (e : StoreError)
  /-- The operation needs the database. -/
  | connect
deriving DecidableEq

/-- The checks of an update: the move, the claim, the range of the error count. -/
def checkUpdate (claimed next : Entry) : Decision :=
  if !EntryState.inProcessing.canMoveTo next.state then
    .refuse (.invalidMove claimed.id .inProcessing next.state)
  else if claimed.processingOwner.isNone then .refuse (.modifiedConcurrently claimed.id)
  else if Nat.pow 2 31 ≤ next.errorCount.toNat then
    .refuse (.invalidInput "error count out of range")
  else .connect

/-- What the client decides about an operation. -/
def check (op : StoreOp) (now : Timestamp) : Decision :=
  match op with
  | .claim 0 _ _ => .answer (.entries [])
  | .update claimed next => checkUpdate claimed next
  | .reap policy =>
    match policy.cutoff now with
    | .ok _ => .connect
    | .error e => .refuse e
  | _ => .connect

/-- Runs an operation while the connection pool is closed. -/
def applyDetached (op : StoreOp) (now : Timestamp) : Except StoreError StoreAnswer :=
  match check op now with
  | .answer a => .ok a
  | .refuse e => .error e
  | .connect => .error DatabaseFailure.poolClosed.toStoreError

end DurableQueue.Relational
