import DurableQueue.Dispatch.Mode
import DurableQueue.Dispatch.Config
import DurableQueue.Store.Basic

/-!
Claims on behalf of a node.

In the sticky modes a node claims only entries that it created. Claims are taken back for every
node.
-/

namespace DurableQueue

/-- Who claims, in which mode, and when claims are orphaned. -/
structure ClaimManager where
  node : NodeId
  mode : QueueMode
  reapPolicy : ReapPolicy
deriving DecidableEq

namespace ClaimManager

/-- The creator to whose entries claims are restricted. -/
def ownerFilter (m : ClaimManager) : Option NodeId := if m.mode.isSticky then some m.node else none

/-- The error of an operation as dispatching reports it. -/
def report {α : Type} (o : Store.Outcome α) : Except DispatchError α × Store :=
  match o with
  | (.ok a, s) => (.ok a, s)
  | (.error e, s) => (.error (.ofStore e), s)

/-- Claims due entries, at most `count`. -/
def claim (m : ClaimManager) (s : Store) (count : Nat) (now : Timestamp) :
    Except DispatchError (List Entry) × Store :=
  report (s.claim count m.node m.ownerFilter now)

/-- Takes back orphaned claims of any node. -/
def reap (m : ClaimManager) (s : Store) (now : Timestamp) :
    Except DispatchError (List Entry) × Store :=
  report (s.reap m.reapPolicy now)

def describe (m : ClaimManager) : String :=
  "ClaimManager \x7b engine: Memory, node_id: " ++ m.node.describe ++ ", mode: " ++ m.mode.label ++
    ", reap_policy: ReapPolicy \x7b claim_timeout: " ++ m.reapPolicy.claimTimeout.render ++
    ", max_failure_retries: " ++ toString m.reapPolicy.maxFailureRetries.toNat ++
    ", penalize: " ++ DispatchConfig.describeBool m.reapPolicy.penalize ++ " \x7d \x7d"

end ClaimManager

end DurableQueue
