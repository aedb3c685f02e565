import DurableQueue.Lock.Call
import DurableQueue.Schedule

/-!
A locker and everything that goes on around it.

A `Locker` holds the locks of the process, the coordination service, and the calls that are in
progress. Its tasks are these calls, the listeners of each contender, and the deletions that dropped
locks leave behind. `Locker.step?` says what a task does next whatever the others do;
`Locker.system` runs ready tasks in the order in which they became ready.
-/

namespace DurableQueue

/-- The deletion of the node of a lock that was dropped. -/
structure LockCleanup where
  client : Nat
  node : String
deriving DecidableEq, Repr

/-- A task of a locker. -/
inductive LockTask where
  | call (i : Nat)
  /-- A contender's listener to a watch. -/
  | watch (call watch : Nat)
  /-- A contender's listener to its session. -/
  | events (call : Nat)
  | cleanup (c : LockCleanup)
deriving DecidableEq, Repr

/-- Locks, and the calls around them. -/
structure Locker where
  backend : LockBackend
  /-- Milliseconds since the beginning. -/
  now : Nat
  locals : LocalLocks
  coordination : Coordination
  /-- Every call ever made. -/
  calls : List LockCall
  /-- The call for which everything else outside waits. -/
  foreground : Option Nat
  cleanups : List LockCleanup
  /-- Ready tasks, in the order in which they became ready. -/
  queue : List LockTask

namespace Locker

def empty (backend : LockBackend) : Locker := ⟨backend, 0, .empty, .empty, [], none, [], []⟩

def setProgress (l : Locker) (i : Nat) (progress : LockProgress) : Locker :=
  { l with calls := l.calls.modify i fun c => { c with progress } }

/-- Drops a lock without releasing it. In this process it is free at once; the node of a shared one
is deleted in the background. -/
def drop (l : Locker) (lock : GlobalLock) : Locker :=
  match lock.hold with
  | .inProcess path => { l with locals := l.locals.unlock path }
  | .shared client node => { l with cleanups := l.cleanups ++ [⟨client, node⟩] }

/-- Drops a lock where nothing can run in the background: the node of a shared one stays. -/
def dropOutside (l : Locker) (lock : GlobalLock) : Locker :=
  match lock.hold with
  | .inProcess path => { l with locals := l.locals.unlock path }
  | .shared _ _ => l

/-- Moves a call. If nobody waits for it, the lock that it acquires is dropped. -/
def proceed (l : Locker) (i : Nat) (call : LockCall) (progress : LockProgress) : Locker :=
  let l := l.setProgress i progress
  match call.isDetached, progress with
  | true, .over (.acquired lock) => l.drop lock
  | _, _ => l

/-- The next step of a call; none while it waits. -/
def stepCall? (l : Locker) (i : Nat) : Option Locker := do
  let call ← l.calls[i]?
  match call.isAborted, call.progress with
  | _, .over _ | _, .gone => none
  | true, .inProcess w =>
    return { l with locals := w.abandon i l.locals }.setProgress i .gone
  | true, _ => return l.setProgress i .gone
  | false, .fresh =>
    return l.proceed i call (LockCall.begin_ call.request l.backend l.now l.coordination)
  | false, .inProcess w =>
    let (w, locals) ← w.step? i l.now l.locals
    return { l with locals }.proceed i call (LockCall.ofWait call.request w)
  | false, .shared a =>
    let (a, coordination) ← a.step? l.now l.coordination
    return { l with coordination }.proceed i call (LockCall.ofAcquisition call.request a)

def acquisition? (l : Locker) (i : Nat) : Option Acquisition := do (← l.calls[i]?).acquisition?

/-- The next step of a task; none while it waits. -/
def step? (t : LockTask) (l : Locker) : Option Locker :=
  match t with
  | .call i => l.stepCall? i
  | .watch i watch => do
    let a ← (← l.acquisition? i).hearWatch? watch l.coordination
    return l.setProgress i (.shared a)
  | .events i => do
    let a ← (← l.acquisition? i).hearEvent? l.coordination
    return l.setProgress i (.shared a)
  | .cleanup c =>
    if l.cleanups.contains c then
      some { l with coordination := (l.coordination.delete c.client c.node).2
                    cleanups := l.cleanups.erase c }
    else none

/-- The listeners to watches, in the order in which their nodes go when a session expires. -/
def watchTasks (l : Locker) : List LockTask :=
  let path (watch : Nat) : String :=
    ((l.coordination.coordinator.watches[watch]?).map NodeWatch.path).getD ""
  let listeners := l.calls.zipIdx.flatMap fun (call, i) =>
    ((call.acquisition?.map Acquisition.watches).getD []).map fun w => (path w, w, i)
  let isBefore (a b : String × Nat × Nat) : Bool := a.1 < b.1 || (a.1 == b.1 && a.2.1 ≤ b.2.1)
  (listeners.mergeSort isBefore).map fun (_, w, i) => .watch i w

/-- Every task except the foreground call. -/
def allTasks (l : Locker) : List LockTask :=
  let calls := List.range l.calls.length
  (calls.filter fun i => l.foreground != some i).map .call ++ l.watchTasks ++
    calls.map .events ++ l.cleanups.map .cleanup

/-- Puts tasks that have become ready at the end of the queue. -/
def refresh (l : Locker) : Locker :=
  let isReady (t : LockTask) : Bool := (step? t l).isSome
  let old := l.queue.filter isReady
  { l with queue := old ++ l.allTasks.filter fun t => isReady t && !old.contains t }

def wakeTimes (l : Locker) : List Nat := l.calls.filterMap LockCall.wakeTime?

/-- The tasks in the order in which they go: the foreground call when all others wait, unless it is
due. -/
def tasks (l : Locker) : List LockTask :=
  match l.foreground with
  | none => l.queue
  | some i =>
    let deadline := (l.calls[i]?).bind LockCall.wakeTime?
    if deadline.any (· ≤ l.now) then .call i :: l.queue else l.queue ++ [.call i]

/-- The tasks of a locker in virtual time. -/
def system : TaskSystem Locker LockTask where
  tasks := tasks
  step? t l := (step? t l).map refresh
  yields _ _ := false
  wakeTimes := wakeTimes
  now := Locker.now
  setNow t l := { l with now := t }.refresh

/-- Adds a call that has not begun and answers its number. -/
def start (l : Locker) (r : LockRequest) : Nat × Locker :=
  (l.calls.length, { l with calls := l.calls ++ [LockCall.ofRequest r] }.refresh)

def isForegroundOver (l : Locker) : Bool :=
  match l.foreground with
  | none => true
  | some i => ((l.calls[i]?).bind LockCall.outcome?).isSome

/-- Makes a call and waits for its outcome; it goes first. -/
def lock (l : Locker) (bound : Nat) (r : LockRequest) : Option LockOutcome × Locker :=
  let i := l.calls.length
  let l := { l with calls := l.calls ++ [.ofRequest r], foreground := some i }
  let l := system.runUntil bound isForegroundOver bound (system.runTask (.call i) bound l)
  ((l.calls[i]?).bind LockCall.outcome?, { l with foreground := none })

/-- Aborts a call. If it is over, the lock that it acquired is dropped. -/
def abort (l : Locker) (i : Nat) : Locker :=
  match ((l.calls[i]?).bind LockCall.outcome?).bind LockOutcome.lock? with
  | some lock => (l.drop lock).refresh
  | none => { l with calls := l.calls.modify i fun c => { c with isAborted := true } }.refresh

/-- Lets go of a call without aborting it. If it is over, the lock that it acquired is dropped. -/
def detach (l : Locker) (i : Nat) : Locker :=
  match ((l.calls[i]?).bind LockCall.outcome?).bind LockOutcome.lock? with
  | some lock => (l.drop lock).refresh
  | none => { l with calls := l.calls.modify i fun c => { c with isDetached := true } }.refresh

def isFree (l : Locker) (client : Nat) (service key : String) : Except LockError Bool × Locker :=
  match lockDirectory service key with
  | .error e => (.error e, l)
  | .ok directory =>
    match l.backend with
    | .inProcess => (.ok (!l.locals.isHeld directory), l)
    | .shared =>
      let (names, coordination) := l.coordination.children client directory
      (names.map List.isEmpty, { l with coordination })

/-- Releases a lock. A shared lock whose node is gone was lost before. -/
def release (l : Locker) (lock : GlobalLock) : Except LockError Unit × Locker :=
  match lock.hold with
  | .inProcess path => (.ok (), { l with locals := l.locals.unlock path }.refresh)
  | .shared client node =>
    let (existed, coordination) := l.coordination.delete client node
    let answer : Except LockError Unit := match existed with
      | .ok true => .ok ()
      | .ok false => .error (.sessionExpired node)
      | .error e => .error e
    (answer, { l with coordination }.refresh)

end Locker

end DurableQueue
