import DurableQueue.Lock.Locker

/-!
Locks tried out step by step.

A `LockTrial` gives names to the clients, subscriptions, watches, locks and background calls of one
locker. A step of it answers at once, except that taking a lock in the foreground and letting time
pass wait in virtual time. `LockTrial.settle` lets everything in the background run until it waits,
and `LockTrial.report` tells which background calls have ended.
-/

namespace DurableQueue.Trial

/-- How someone parts with a lock. -/
inductive LockParting where
  | released
  | dropped
  /-- Dropped where nothing can run in the background. -/
  | droppedOutside

/-- One step of a trial. -/
inductive LockStep where
  | openSession (name : String)
  | clone (client name : String)
  | create (client start : String)
  | children (client parent : String)
  | delete (client path : String)
  | watch (client path name : String)
  | unwatch (name : String)
  | check (name : String)
  /-- The session of a client undergoes a change. -/
  | undergo (client : String) (change : SessionEvent)
  | forget (client : String)
  | subscribe (client name : String)
  | drain (name : String)
  | countNodes
  | inject (client : String) (fault : ClientFault) (count : Nat)
  | isFree (client service key : String)
  | lock (client service key : String) (timeout : Span) (name : String)
  | spawn (client service key : String) (timeout : Span) (name : String)
  | abort (name : String)
  | part (name : String) (way : LockParting)
  | look (name : String)
  | advance (time : Span)

/-- What a step answers. -/
inductive LockReply where
  | done
  | flag (b : Bool)
  | word (s : String)
  | names (names : List String)
  | count (n : Nat)
  | received (receptions : List Reception)
  | lock (lock : GlobalLock)
  | outcome (outcome : LockOutcome)
  | failed (error : LockError)
  /-- A name that stands for nothing. -/
  | unknownName

/-- A locker, and names for what belongs to it. -/
structure LockTrial where
  locker : Locker
  clients : List (String × Nat)
  /-- Subscriptions: a session, and how many of its events were read. -/
  readers : List (String × Nat × Nat)
  watches : List (String × Nat)
  held : List (String × GlobalLock)
  /-- Background calls that have not been reported. -/
  tasks : List (String × Nat)

namespace LockTrial

/-- A bound that no run reaches. -/
def bound : Nat := 1000000000

/-- A trial at its beginning. -/
def begin_ (backend : LockBackend) : LockTrial := ⟨.empty backend, [], [], [], [], []⟩

/-- Takes a name away. -/
def without {α : Type} (name : String) (names : List (String × α)) : List (String × α) :=
  names.filter fun n => n.1 != name

/-- Gives a name, which then stands for nothing else. -/
def naming {α : Type} (name : String) (a : α) (names : List (String × α)) : List (String × α) :=
  (name, a) :: without name names

def coordination (t : LockTrial) : Coordination := t.locker.coordination

def onLocker (t : LockTrial) (f : Locker → Locker) : LockTrial :=
  { t with locker := (f t.locker).refresh }

def setCoordination (t : LockTrial) (coordination : Coordination) : LockTrial :=
  t.onLocker fun l => { l with coordination }

/-- The client of a name. Locks of the process need none. -/
def client? (t : LockTrial) (name : String) : Option Nat :=
  match t.locker.backend, t.clients.lookup name with
  | _, some client => some client
  | .inProcess, none => some 0
  | .shared, none => none

/-- Answers for a client. -/
def withClient (t : LockTrial) (name : String) (f : Nat → LockReply × LockTrial) :
    LockReply × LockTrial :=
  match t.client? name with
  | some client => f client
  | none => (.unknownName, t)

/-- Calls the coordination service for a client. -/
def call {α : Type} (t : LockTrial) (name : String)
    (f : Coordination → Nat → Coordination.Outcome α) (reply : α → LockReply) :
    LockReply × LockTrial :=
  t.withClient name fun client =>
    match f t.coordination client with
    | (.ok a, c) => (reply a, t.setCoordination c)
    | (.error e, c) => (.failed e, t.setCoordination c)

/-- The change of the service that a session undergoes. -/
def changeOf : SessionEvent → Coordinator → Nat → Coordinator
  | .disconnected => Coordinator.disconnect
  | .reconnected => Coordinator.reconnect
  | .expired => Coordinator.expire

/-- Keeps a lock under a name; an earlier one of that name is dropped. -/
def keep (t : LockTrial) (name : String) (outcome : LockOutcome) : LockTrial :=
  match outcome.lock? with
  | none => t
  | some lock =>
    let t := match t.held.lookup name with
      | some old => t.onLocker fun l => l.drop old
      | none => t
    { t with held := naming name lock t.held }

/-- Parts with a lock. -/
def partWith (t : LockTrial) (lock : GlobalLock) : LockParting → LockReply × LockTrial
  | .released =>
    match t.locker.release lock with
    | (.ok _, l) => (.done, t.onLocker fun _ => l)
    | (.error e, l) => (.failed e, t.onLocker fun _ => l)
  | .dropped => (.done, t.onLocker fun l => l.drop lock)
  | .droppedOutside => (.done, t.onLocker fun l => l.dropOutside lock)

def step (t : LockTrial) : LockStep → LockReply × LockTrial
  | .openSession name =>
    let (client, c) := t.coordination.openSession
    (.done, { t.setCoordination c with clients := naming name client t.clients })
  | .clone client name =>
    t.withClient client fun client =>
      let (client, c) := t.coordination.clone client
      (.done, { t.setCoordination c with clients := naming name client t.clients })
  | .create client start => t.call client (fun c client => c.create client start) .word
  | .children client parent => t.call client (fun c client => c.children client parent) .names
  | .delete client path => t.call client (fun c client => c.delete client path) .flag
  | .watch client path name =>
    t.withClient client fun client =>
      match t.coordination.watch client path with
      | (.ok (some w), c) =>
        (.flag true, { t.setCoordination c with watches := naming name w t.watches })
      | (.ok none, c) => (.flag false, t.setCoordination c)
      | (.error e, c) => (.failed e, t.setCoordination c)
  | .unwatch name =>
    (.flag (t.watches.lookup name).isSome, { t with watches := without name t.watches })
  | .check name =>
    match t.watches.lookup name with
    | none => (.word "closed", t)
    | some w =>
      if t.coordination.coordinator.hasFired w then
        (.word "fired", { t with watches := without name t.watches })
      else (.word "pending", t)
  | .undergo client change =>
    t.withClient client fun client =>
      (.done, t.setCoordination (t.coordination.onSession client (changeOf change)))
  | .forget client =>
    (.flag (t.clients.lookup client).isSome, { t with clients := without client t.clients })
  | .subscribe client name =>
    t.withClient client fun client =>
      let session := t.coordination.sessionOf client
      let seen := t.coordination.coordinator.eventCount session
      (.done, { t with readers := naming name (session, seen) t.readers })
  | .drain name =>
    match t.readers.lookup name with
    | none => (.unknownName, t)
    | some (session, seen) =>
      let c := t.coordination.coordinator
      let received := ((c.sessions[session]?).map fun s => s.receiveAll seen).getD []
      let read := (session, c.eventCount session)
      (.received received, { t with readers := naming name read t.readers })
  | .countNodes => (.count t.coordination.coordinator.nodeCount, t)
  | .inject client fault count =>
    t.withClient client fun client =>
      (.done, t.setCoordination (t.coordination.inject client fault count))
  | .isFree client service key =>
    t.withClient client fun client =>
      match t.locker.isFree client service key with
      | (.ok b, l) => (.flag b, t.onLocker fun _ => l)
      | (.error e, l) => (.failed e, t.onLocker fun _ => l)
  | .lock client service key timeout name =>
    t.withClient client fun client =>
      match t.locker.lock bound ⟨client, service, key, timeout⟩ with
      | (some o, l) => (.outcome o, (t.onLocker fun _ => l).keep name o)
      | (none, l) => (.done, t.onLocker fun _ => l)
  | .spawn client service key timeout name =>
    t.withClient client fun client =>
      let t := match t.tasks.lookup name with
        | some i => t.onLocker fun l => l.detach i
        | none => t
      let (i, l) := t.locker.start ⟨client, service, key, timeout⟩
      (.done, { t with locker := l, tasks := naming name i t.tasks })
  | .abort name =>
    match t.tasks.lookup name with
    | some i => (.done, { t.onLocker (fun l => l.abort i) with tasks := without name t.tasks })
    | none => (.unknownName, t)
  | .part name way =>
    match t.held.lookup name with
    | some lock => { t with held := without name t.held }.partWith lock way
    | none => (.unknownName, t)
  | .look name =>
    match t.held.lookup name with
    | some lock => (.lock lock, t)
    | none => (.unknownName, t)
  | .advance time =>
    let moment := t.locker.now + time.millisUp
    (.done, t.onLocker fun l => Locker.system.advanceTo bound moment bound l)

/-- Lets everything in the background run until it waits. -/
def settle (t : LockTrial) : LockTrial :=
  t.onLocker fun l => Locker.system.settle bound bound l

/-- The background calls that have ended and have not been reported, and the names of those that
still wait, ascending. A lock that was acquired is kept under the name of its call. -/
def report (t : LockTrial) : List (String × LockOutcome) × List String × LockTrial :=
  let outcome? (i : Nat) : Option LockOutcome := (t.locker.calls[i]?).bind LockCall.outcome?
  let ended := t.tasks.filterMap fun (name, i) => (outcome? i).map fun o => (name, o)
  let waiting := t.tasks.filter fun (_, i) => (outcome? i).isNone
  let t := ended.foldl (fun t (name, o) => t.keep name o) { t with tasks := waiting }
  (ended, (waiting.map Prod.fst).mergeSort fun a b => a ≤ b, t)

end LockTrial

end DurableQueue.Trial
