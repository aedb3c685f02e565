import DurableQueue.Store.Reap

/-!
The store of entries.

A `Store` keeps the live entries in the order of their numbers and, apart from them, the entries
that were purged. Every operation is one atomic step that answers a value or an error and the store
after it; an operation that fails leaves the entries as they were. `Store.apply` runs an operation
given as a `StoreOp`.
-/

namespace DurableQueue

/-- Live and purged entries. -/
structure Store where
  /-- The number of the last entry that was appended. -/
  lastId : Int
  /-- Live entries, ascending by number. -/
  live : List Entry
  /-- Purged entries. -/
  history : List Entry
  /-- How many of the next operations are made to fail. -/
  failuresLeft : Nat
deriving DecidableEq

namespace Store

def empty : Store := ⟨0, [], [], 0⟩

instance : Inhabited Store := ⟨empty⟩

/-- An answer or an error, and the store afterwards. -/
abbrev Outcome (α : Type) := Except StoreError α × Store

def failNext (s : Store) (count : Nat) : Store := { s with failuresLeft := count }

/-- Runs an operation unless it is made to fail. -/
def guarded {α : Type} (s : Store) (op : Store → Outcome α) : Outcome α :=
  match s.failuresLeft with
  | 0 => op s
  | n + 1 => (.error .injected, { s with failuresLeft := n })

/-- Adds a new entry, available at once. -/
def append (s : Store) (new : NewEntry) (now : Timestamp) : Outcome Entry :=
  s.guarded fun s =>
    let e := Entry.ofNew ⟨s.lastId + 1⟩ new now
    (.ok e, { s with lastId := s.lastId + 1, live := s.live ++ [e] })

/-- Whether a claim with this filter takes an entry at a time. -/
def isWanted (owner : Option NodeId) (now : Timestamp) (e : Entry) : Bool :=
  e.isClaimableAt now &&
    match owner with
    | none => true
    | some node => e.creatingOwner == node

/-- Claims the first wanted entries, at most `count`. Answers the claimed entries, and all entries
after the claim. -/
def claimFirst (claimer : NodeId) (owner : Option NodeId) (now : Timestamp) :
    Nat → List Entry → List Entry × List Entry
  | 0, es => ([], es)
  | _ + 1, [] => ([], [])
  | n + 1, e :: es =>
    if isWanted owner now e then
      let e := e.claimedBy claimer now
      let (claimed, rest) := claimFirst claimer owner now n es
      (e :: claimed, e :: rest)
    else
      let (claimed, rest) := claimFirst claimer owner now (n + 1) es
      (claimed, e :: rest)

/-- Claims due entries for a node, oldest first; with an owner, only entries that it created. -/
def claim (s : Store) (count : Nat) (claimer : NodeId) (owner : Option NodeId) (now : Timestamp) :
    Outcome (List Entry) :=
  s.guarded fun s =>
    let (claimed, live) := claimFirst claimer owner now count s.live
    (.ok claimed, { s with live })

/-- The live entry of a number. -/
def liveEntry? (s : Store) (id : EntryId) : Option Entry := s.live.find? fun e => e.id == id

/-- Puts an entry in the place of the live entry of the same number. -/
def replace (s : Store) (e : Entry) : Store :=
  { s with live := s.live.map fun old => if old.id = e.id then e else old }

/-- Whether a stored entry is still the claim that a caller holds. -/
def isSameClaim (stored claimed : Entry) : Bool :=
  stored.state = .inProcessing ∧ stored.processingOwner = claimed.processingOwner ∧
    stored.updatedTime = claimed.updatedTime

/-- A stored entry after its claim was resolved. The error count never shrinks. -/
def resolved (stored next : Entry) (now : Timestamp) : Entry :=
  { stored with
    state := next.state
    processingOwner := none
    errorCount := if stored.errorCount < next.errorCount then next.errorCount else stored.errorCount
    nextAvailableTime := next.nextAvailableTime
    updatedTime := now }

/-- Resolves a claim, if it is still the stored one. -/
def update (s : Store) (claimed next : Entry) (now : Timestamp) : Outcome Unit :=
  s.guarded fun s =>
    match s.liveEntry? claimed.id with
    | none => (.error (.noEntry claimed.id), s)
    | some stored =>
      if !isSameClaim stored claimed then (.error (.modifiedConcurrently claimed.id), s)
      else if !stored.state.canMoveTo next.state then
        (.error (.invalidMove claimed.id stored.state next.state), s)
      else (.ok (), s.replace (resolved stored next now))

/-- Changes the live entries that pass a test, and answers the changed ones. -/
def changeWhere (s : Store) (test : Entry → Bool) (change : Entry → Entry) : List Entry × Store :=
  ((s.live.filter test).map change,
    { s with live := s.live.map fun e => if test e then change e else e })

/-- Takes back orphaned claims of any node. -/
def reap (s : Store) (policy : ReapPolicy) (now : Timestamp) : Outcome (List Entry) :=
  s.guarded fun s =>
    match policy.cutoff now with
    | .error e => (.error e, s)
    | .ok cutoff =>
      let (reaped, s) := s.changeWhere (·.isStaleClaim cutoff) (·.reaped policy now)
      (.ok reaped, s)

/-- Hands back all claims of a node. -/
def release (s : Store) (owner : NodeId) (now : Timestamp) : Outcome (List Entry) :=
  s.guarded fun s =>
    let (released, s) := s.changeWhere (·.isHeldBy owner) (·.released now)
    (.ok released, s)

def count (s : Store) (state : EntryState) : Outcome Nat :=
  s.guarded fun s => (.ok (s.live.countP fun e => e.state == state), s)

def lookup? (s : Store) (id : EntryId) : Option Entry :=
  match s.liveEntry? id with
  | some e => some e
  | none => s.history.find? fun e => e.id == id

def find (s : Store) (id : EntryId) : Outcome (Option Entry) :=
  s.guarded fun s => (.ok (s.lookup? id), s)

/-- The live entries that carry the given keys. -/
def search (s : Store) (key1 key2 : Option String) : Outcome (List Entry) :=
  s.guarded fun s => (.ok (s.live.filter (·.carries key1 key2)), s)

/-- Whether a purge moves an entry. -/
def isPurgeable (olderThan : Timestamp) (e : Entry) : Bool :=
  e.state.isTerminal && decide (e.updatedTime < olderThan)

/-- Moves terminal entries that were last changed before a time out of the live ones. -/
def purge (s : Store) (olderThan : Timestamp) : Outcome Nat :=
  s.guarded fun s =>
    let moved := s.live.filter (isPurgeable olderThan)
    (.ok moved.length,
      { s with live := s.live.filter fun e => !isPurgeable olderThan e
               history := s.history ++ moved })

end Store

/-- An operation on a store. -/
inductive StoreOp where
  | append (new : NewEntry)
  | claim (count : Nat) (claimer : NodeId) (owner : Option NodeId)
  | update (claimed next : Entry)
  | reap (policy : ReapPolicy)
  | release (owner : NodeId)
  | count (state : EntryState)
  | find (id : EntryId)
  | search (key1 key2 : Option String)
  | purge (olderThan : Timestamp)
  | failNext (count : Nat)
deriving DecidableEq

/-- What an operation answers. -/
inductive StoreAnswer where
  | done
  | entry (e : Entry)
  | entries (es : List Entry)
  | count (n : Nat)
  | found (e : Option Entry)
deriving DecidableEq

namespace Store

/-- Wraps the answer of an operation. -/
def Outcome.map {α : Type} (f : α → StoreAnswer) (o : Outcome α) : Outcome StoreAnswer :=
  match o with
  | (.ok a, s) => (.ok (f a), s)
  | (.error e, s) => (.error e, s)

/-- Runs an operation at a time. -/
def apply (s : Store) (op : StoreOp) (now : Timestamp) : Outcome StoreAnswer :=
  match op with
  | .append new => (s.append new now).map .entry
  | .claim count claimer owner => (s.claim count claimer owner now).map .entries
  | .update claimed next => (s.update claimed next now).map fun _ => .done
  | .reap policy => (s.reap policy now).map .entries
  | .release owner => (s.release owner now).map .entries
  | .count state => (s.count state).map .count
  | .find id => (s.find id).map .found
  | .search key1 key2 => (s.search key1 key2).map .entries
  | .purge olderThan => (s.purge olderThan).map .count
  | .failNext count => (.ok .done, s.failNext count)

/-- Runs operations one after the other, each at its own time. -/
def run (s : Store) : List (StoreOp × Timestamp) → List (Except StoreError StoreAnswer) × Store
  | [] => ([], s)
  | (op, now) :: rest =>
    let (answer, s) := s.apply op now
    let (answers, s) := s.run rest
    (answer :: answers, s)

end Store

end DurableQueue
