import DurableQueue.Trial.Events

/-!
Entries in any state, for trials.

`Fixture.entry` is an available entry, and the other functions change one thing about an entry.
Claiming sets owner and state together and `Fixture.inState` clears the owner, so owner and state
match unless an entry is put in processing by its state alone.
-/

namespace DurableQueue.Trial.Fixture

/-- An available entry that `node-a` created at a time. -/
def entry (id : EntryId) (payload : Payload) (createdAt : Timestamp) : Entry :=
  .ofNew id ⟨payload, ⟨"node-a"⟩, .none⟩ createdAt

/-- The event that an entry carries when none is given. -/
def standardEvent : MarkedEvent := ⟨"m", "fixture"⟩

def createdBy (e : Entry) (node : NodeId) : Entry := { e with creatingOwner := node }

/-- The entry as claimed by a node. -/
def claimedBy (e : Entry) (node : NodeId) : Entry :=
  { e with processingOwner := some node, state := .inProcessing }

/-- The entry in a state and without an owner. -/
def inState (e : Entry) (state : EntryState) : Entry :=
  { e with state, processingOwner := none }

def withErrors (e : Entry) (count : UInt32) : Entry := { e with errorCount := count }

def withKeys (e : Entry) (keys : SearchKeys) : Entry := { e with searchKeys := keys }

/-- The entry with an owner, whatever its state. -/
def withOwner (e : Entry) (node : NodeId) : Entry := { e with processingOwner := some node }

/-- What is to be changed about an available entry. -/
structure Plan where
  id : EntryId
  payload : Payload
  createdAt : Timestamp
  creator : Option NodeId
  claimer : Option NodeId
  state : Option EntryState
  errorCount : Option UInt32
  keys : SearchKeys
  owner : Option NodeId

/-- Changes an entry if there is something to change. -/
def applied {α : Type} (change : Entry → α → Entry) (a : Option α) (e : Entry) : Entry :=
  match a with
  | some a => change e a
  | none => e

/-- The entry of a plan: the changes are made in the order of the fields. -/
def Plan.build (p : Plan) : Entry :=
  let e := applied createdBy p.creator (entry p.id p.payload p.createdAt)
  let e := applied inState p.state (applied claimedBy p.claimer e)
  let e := withKeys (applied withErrors p.errorCount e) p.keys
  applied withOwner p.owner e

end DurableQueue.Trial.Fixture
