import DurableQueue.Entry.Basic

/-!
Checks of what stores and dispatchers must keep.

Each check reports the first `Violation` that it finds.
-/

namespace DurableQueue.Trial

/-- Something that must not be. -/
inductive Violation where
  | claimedTwice (id : EntryId)
  | ownerMismatch (e : Entry)
  | limitExceeded (id : EntryId) (count limit : UInt32)
  /-- Available although the retries are spent. -/
  | exhaustedAvailable (id : EntryId)
  | idChanged (before after : EntryId)
  | payloadChanged (id : EntryId)
  | countDecreased (id : EntryId) (before after : UInt32)
  | badMove (id : EntryId) (before after : EntryState)
  | notTerminal (id : EntryId) (state : EntryState)
  | delayShrank (step : Nat) (before after : Span)

namespace Violation

/-- An owner inside diagnostic texts. -/
def describeOwner : Option NodeId → String
  | some node => "Some(" ++ node.describe ++ ")"
  | none => "None"

def message : Violation → String
  | claimedTwice id => "entry " ++ id.text ++ " was claimed twice"
  | ownerMismatch e =>
    "entry " ++ e.id.text ++ " is " ++ e.state.name ++ " with processing owner " ++
      describeOwner e.processingOwner
  | limitExceeded id count limit =>
    "entry " ++ id.text ++ " exceeded the retry limit: " ++ toString count.toNat ++ " > " ++
      toString limit.toNat
  | exhaustedAvailable id =>
    "entry " ++ id.text ++ " is AVAILABLE with an exhausted retry budget"
  | idChanged before after => "entry id changed: " ++ before.text ++ " -> " ++ after.text
  | payloadChanged id => "payload of entry " ++ id.text ++ " changed"
  | countDecreased id before after =>
    "error count of entry " ++ id.text ++ " decreased: " ++ toString before.toNat ++ " -> " ++
      toString after.toNat
  | badMove id before after => "entry " ++ id.text ++ " moved " ++ before.name ++ " -> " ++ after.name
  | notTerminal id state => "entry " ++ id.text ++ " is still " ++ state.name
  | delayShrank step before after =>
    "delay shrank after failure " ++ toString step ++ ": " ++ before.render ++ " -> " ++ after.render

end Violation

namespace Invariant

/-- Requires a condition. -/
def require (condition : Bool) (v : Violation) : Except Violation Unit :=
  if condition then .ok () else .error v

/-- No entry is claimed twice, given the claims already seen. -/
def distinct (seen : List EntryId) : List Entry → Except Violation Unit
  | [] => .ok ()
  | e :: rest =>
    if seen.contains e.id then .error (.claimedTwice e.id) else distinct (e.id :: seen) rest

/-- No entry is in two of the claimed batches, or twice in one. -/
def noDuplicateClaims (batches : List (List Entry)) : Except Violation Unit :=
  distinct [] batches.flatten

/-- Owner and state of every entry match. -/
def ownershipConsistent (entries : List Entry) : Except Violation Unit :=
  entries.forM fun e => require e.ownerMatches (.ownerMismatch e)

/-- No error count exceeds the limit, and no available entry has reached it. -/
def retryCountBounded (entries : List Entry) (limit : UInt32) : Except Violation Unit :=
  entries.forM fun e => do
    require (e.errorCount ≤ limit) (.limitExceeded e.id e.errorCount limit)
    require (e.errorCount < limit || e.state != .available) (.exhaustedAvailable e.id)

/-- One entry may have become the other. -/
def transitionValid (before after : Entry) : Except Violation Unit := do
  require (before.id == after.id) (.idChanged before.id after.id)
  require (before.payload == after.payload) (.payloadChanged before.id)
  require (before.errorCount ≤ after.errorCount)
    (.countDecreased before.id before.errorCount after.errorCount)
  require (before.state == after.state || before.state.canMoveTo after.state)
    (.badMove before.id before.state after.state)

/-- Every entry is in a terminal state. -/
def allTerminal (entries : List Entry) : Except Violation Unit :=
  entries.forM fun e => require e.state.isTerminal (.notTerminal e.id e.state)

/-- No delay is shorter than the one before it; steps are counted from `step`. -/
def nonDecreasingFrom (step : Nat) : List Span → Except Violation Unit
  | a :: b :: rest => do
    require (a ≤ b) (.delayShrank step a b)
    nonDecreasingFrom (step + 1) (b :: rest)
  | _ => .ok ()

/-- No delay is shorter than the one before it. -/
def nonDecreasing (delays : List Span) : Except Violation Unit := nonDecreasingFrom 1 delays

end Invariant

end DurableQueue.Trial
