import DurableQueue.Entry.State
import DurableQueue.Text.Quoted
import DurableQueue.Time.Timestamp

/-!
Entries: the durable units of work.

An `Entry` carries a payload, remembers who appended it and who has claimed it, counts failed
attempts and knows from when on it may be claimed. `Entry.ownerMatches` is the pairing of owner and
state that every stored entry keeps.
-/

namespace DurableQueue

/-- The number of an entry. Numbers ascend in the order of appends. -/
structure EntryId where
  number : Int
deriving DecidableEq, Repr, Inhabited

namespace EntryId

def text (id : EntryId) : String := toString id.number

instance : LT EntryId := ⟨fun a b => a.number < b.number⟩
instance (a b : EntryId) : Decidable (a < b) := inferInstanceAs (Decidable (a.number < b.number))

theorem lt_def {a b : EntryId} : a < b ↔ a.number < b.number := Iff.rfl

end EntryId

/-- The identity of one process that takes part. -/
structure NodeId where
  name : String
deriving DecidableEq, Repr, Inhabited

def NodeId.describe (n : NodeId) : String := "NodeId(" ++ Text.quoted n.name ++ ")"

/-- An encoded event under the name of its type. -/
structure Payload where
  eventType : String
  body : List UInt8
deriving DecidableEq, Repr, Inhabited

/-- Keys by which entries can be looked up. -/
structure SearchKeys where
  key1 : Option String
  key2 : Option String
deriving DecidableEq, Repr, Inhabited

def SearchKeys.none : SearchKeys := ⟨.none, .none⟩

/-- One durable unit of work. -/
structure Entry where
  id : EntryId
  payload : Payload
  /-- The node that appended the entry. -/
  creatingOwner : NodeId
  /-- The node that holds the claim. -/
  processingOwner : Option NodeId
  state : EntryState
  /-- Failed attempts so far. -/
  errorCount : UInt32
  createdTime : Timestamp
  /-- When the store last changed the state. -/
  updatedTime : Timestamp
  /-- The earliest time of a claim. -/
  nextAvailableTime : Timestamp
  searchKeys : SearchKeys
deriving DecidableEq, Inhabited

/-- What an append asks for. -/
structure NewEntry where
  payload : Payload
  creatingOwner : NodeId
  searchKeys : SearchKeys
deriving DecidableEq, Inhabited

/-- One more failed attempt; the largest count stays. -/
def countFailure (count : UInt32) : UInt32 :=
  if count.toNat + 1 < UInt32.size then count + 1 else count

theorem le_countFailure (count : UInt32) : count.toNat ≤ (countFailure count).toNat := by
  unfold countFailure UInt32.size
  split
  · rw [UInt32.toNat_add]
    simp only [UInt32.reduceToNat]
    omega
  · exact Nat.le_refl _

theorem toNat_countFailure (count : UInt32) :
    (countFailure count).toNat = min (count.toNat + 1) (UInt32.size - 1) := by
  have h := count.toNat_lt
  unfold countFailure UInt32.size
  split
  · rw [UInt32.toNat_add]
    simp only [UInt32.reduceToNat]
    omega
  · omega

namespace Entry

/-- Whether the entry can be claimed at a time. -/
def isClaimableAt (e : Entry) (now : Timestamp) : Bool :=
  e.state = .available ∧ e.nextAvailableTime ≤ now

/-- Whether the claim is older than a time. -/
def isStaleClaim (e : Entry) (cutoff : Timestamp) : Bool :=
  e.state = .inProcessing ∧ e.updatedTime < cutoff

/-- An owner is set exactly while the entry is claimed. -/
def ownerMatches (e : Entry) : Bool :=
  e.processingOwner.isSome == (e.state == .inProcessing)

/-- Whether the entry is claimed by a node. -/
def isHeldBy (e : Entry) (node : NodeId) : Bool :=
  e.state = .inProcessing ∧ e.processingOwner = some node

/-- A new entry, available at once. -/
def ofNew (id : EntryId) (new : NewEntry) (now : Timestamp) : Entry :=
  { id, payload := new.payload, creatingOwner := new.creatingOwner, processingOwner := none,
    state := .available, errorCount := 0, createdTime := now, updatedTime := now,
    nextAvailableTime := now, searchKeys := new.searchKeys }

/-- The entry as claimed by a node. -/
def claimedBy (e : Entry) (node : NodeId) (now : Timestamp) : Entry :=
  { e with state := .inProcessing, processingOwner := some node, updatedTime := now }

/-- The entry as handed back by its node. -/
def released (e : Entry) (now : Timestamp) : Entry :=
  { e with state := .available, processingOwner := none, updatedTime := now,
           nextAvailableTime := now }

/-- Whether the entry carries every key that is asked for. -/
def carries (e : Entry) (key1 key2 : Option String) : Bool :=
  (key1.isNone || e.searchKeys.key1 == key1) && (key2.isNone || e.searchKeys.key2 == key2)

theorem isClaimableAt_iff {e : Entry} {now : Timestamp} :
    e.isClaimableAt now = true ↔ e.state = .available ∧ e.nextAvailableTime ≤ now := by
  simp [isClaimableAt]

theorem isStaleClaim_iff {e : Entry} {cutoff : Timestamp} :
    e.isStaleClaim cutoff = true ↔ e.state = .inProcessing ∧ e.updatedTime < cutoff := by
  simp [isStaleClaim]

theorem isHeldBy_iff {e : Entry} {node : NodeId} :
    e.isHeldBy node = true ↔ e.state = .inProcessing ∧ e.processingOwner = some node := by
  simp [isHeldBy]

end Entry

end DurableQueue
