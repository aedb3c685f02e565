import DurableQueue.Lock.Client
import DurableQueue.Lock.State

/-!
Taking a lock of the coordination service.

A contender creates a numbered node in the directory of the lock. The first node of the directory
holds the lock; everyone else watches the node just before its own and lists again when a signal
comes. An `Acquisition` is one contender on its way: every step makes at most one call of its client
or takes one signal. Watches and session events reach it through the steps of its own listeners,
which run apart from it.
-/

namespace DurableQueue

/-- What a contender does next. -/
inductive AcquisitionStage where
  /-- It deletes the node that it left behind. -/
  | discarding
  | creating
  /-- It looks where its node stands. -/
  | listing (node : String)
  /-- It sets a watch on the node before its own. -/
  | watching (node predecessor : String)
  | awaiting
  /-- The deadline has passed; it deletes the node that it left behind and gives up. -/
  | withdrawing
  /-- It deletes its node and fails. -/
  | abandoning (node : String) (error : LockError)
  /-- It holds the lock by a node, gave up, or failed. -/
  | over (result : Except LockError (Option String))

/-- A contender on its way to a lock. -/
structure Acquisition where
  client : Nat
  directory : String
  /-- The millisecond at which it gives up. -/
  deadline : Nat
  state : LockState
  /-- The node that it left behind. -/
  stale : Option String
  /-- Signals that have arrived. -/
  signals : List LockSignal
  /-- How many events of its session it has been told. -/
  seenEvents : Nat
  /-- The watches that it has set and that have not been reported. -/
  watches : List Nat
  stage : AcquisitionStage

/-- The position of a node in its directory. -/
inductive NodePosition where
  | first
  | behind (predecessor : String)
  | absent
deriving DecidableEq, Repr

namespace NodePosition

/-- The position of a name in a list of names. -/
def of (name : String) : List String → NodePosition
  | [] => absent
  | n :: rest =>
    if n = name then first
    else
      match of name rest with
      | first => behind n
      | p => p

theorem of_eq_first_iff {name : String} {names : List String} :
    of name names = first ↔ names.head? = some name := by
  cases names with
  | nil => simp [of]
  | cons n rest =>
    unfold of
    by_cases h : n = name
    · simp [h]
    · simp only [h, ↓reduceIte, List.head?_cons, Option.some.injEq, iff_false]
      split <;> simp_all

end NodePosition

namespace Acquisition

/-- The name with which every node of a lock begins. -/
def nodeStart : String := "lock-"

/-- The last component of a path. -/
def nameOf (path : String) : String :=
  match Text.splitLast '/' path.toList with
  | some (_, name) => String.ofList name
  | none => path

/-- A contender that begins; session events count from now on. -/
def begin_ (c : Coordination) (client : Nat) (directory : String) (deadline : Nat) : Acquisition :=
  { client, directory, deadline, state := .unlocked, stale := none, signals := [],
    seenEvents := c.coordinator.eventCount (c.sessionOf client), watches := [],
    stage := .discarding }

/-- What a contender does next in its state. -/
def stageOf : LockState → AcquisitionStage
  | .unlocked => .discarding
  | .waiting node => .listing node
  | .held node => .over (.ok (some node))

/-- Applies a signal. A node that is given up becomes the one left behind. -/
def apply (a : Acquisition) (signal : LockSignal) : Acquisition :=
  let state := a.state.next signal
  let stale := if state = .unlocked then a.state.node? <|> a.stale else a.stale
  { a with state, stale }

/-- Applies a signal and goes on from the state that it leads to. -/
def advance (a : Acquisition) (signal : LockSignal) : Acquisition :=
  let a := a.apply signal
  { a with stage := stageOf a.state }

/-- Deletes a node, if there is one to delete; a failure is not reported. -/
def discard (a : Acquisition) (node : Option String) (c : Coordination) : Coordination :=
  match node with
  | some node => (c.delete a.client node).2
  | none => c

/-- The next step; none while the contender waits. A signal counts before the deadline. -/
def step? (now : Nat) (a : Acquisition) (c : Coordination) : Option (Acquisition × Coordination) :=
  match a.stage with
  | .discarding => some ({ a with stale := none, stage := .creating }, a.discard a.stale c)
  | .creating =>
    match c.create a.client (a.directory ++ "/" ++ nodeStart) with
    | (.ok node, c) => some (a.advance (.created node), c)
    | (.error .connectionLoss, c) => some ({ a with stage := .awaiting }, c)
    | (.error e, c) => some ({ a with stage := .over (.error e) }, c)
  | .listing node =>
    match c.children a.client a.directory with
    | (.ok names, c) =>
      match NodePosition.of (nameOf node) names with
      | .first => some (a.advance .acquired, c)
      | .absent => some (a.advance .sessionExpired, c)
      | .behind name =>
        some ({ a with stage := .watching node (a.directory ++ "/" ++ name) }, c)
    | (.error .connectionLoss, c) => some ({ a with stage := .awaiting }, c)
    | (.error e, c) => some ({ a with stage := .abandoning node e }, c)
  | .watching node predecessor =>
    match c.watch a.client predecessor with
    | (.ok (some w), c) => some ({ a with watches := a.watches ++ [w], stage := .awaiting }, c)
    | (.ok none, c) =>
      some ({ a with signals := a.signals ++ [.predecessorDeleted], stage := .awaiting }, c)
    | (.error .connectionLoss, c) => some ({ a with stage := .awaiting }, c)
    | (.error e, c) => some ({ a with stage := .abandoning node e }, c)
  | .awaiting =>
    match a.signals with
    | .sessionLost :: rest => some ({ a with signals := rest }.apply .sessionLost, c)
    | .timedOut :: rest =>
      some ({ { a with signals := rest }.apply .timedOut with stage := .withdrawing }, c)
    | signal :: rest => some ({ a with signals := rest }.advance signal, c)
    | [] =>
      if a.deadline ≤ now then some ({ a.apply .timedOut with stage := .withdrawing }, c)
      else none
  | .withdrawing =>
    some ({ a with stale := none, stage := .over (.ok none) }, a.discard a.stale c)
  | .abandoning node e =>
    some ({ a with stage := .over (.error e) }, a.discard (some node) c)
  | .over _ => none

def wakeTime? (a : Acquisition) : Option Nat :=
  match a.stage with
  | .awaiting => some a.deadline
  | _ => none

/-- Whether a contender still listens to its session and its watches. -/
def listens (a : Acquisition) : Bool :=
  match a.stage with
  | .over _ => false
  | _ => true

/-- What a contender makes of something received from its session. After lost events it looks
again. -/
def signalOf : Reception → LockSignal
  | .event .disconnected => .sessionLost
  | .event .reconnected => .sessionRestored
  | .event .expired => .sessionExpired
  | .missed _ => .sessionRestored

/-- Turns the next event of the session into a signal. -/
def hearEvent? (a : Acquisition) (c : Coordination) : Option Acquisition :=
  if a.listens then do
    let (r, seenEvents) ← (← c.coordinator.sessions[c.sessionOf a.client]?).receive? a.seenEvents
    return { a with seenEvents, signals := a.signals ++ [signalOf r] }
  else none

/-- Turns the firing of a watch into a signal. -/
def hearWatch? (a : Acquisition) (watch : Nat) (c : Coordination) : Option Acquisition :=
  if a.listens && a.watches.contains watch && c.coordinator.hasFired watch then
    some { a with watches := a.watches.erase watch, signals := a.signals ++ [.predecessorDeleted] }
  else none

theorem apply_state (a : Acquisition) (signal : LockSignal) :
    (a.apply signal).state = a.state.next signal := rfl

end Acquisition

end DurableQueue
