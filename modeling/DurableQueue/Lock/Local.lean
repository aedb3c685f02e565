/-!
Locks within one process.

`LocalLocks` has a slot for every path that is held or waited for, and every slot has a queue. Who
finds a lock held refers to the queue of its slot, joins it, looks once more and then sleeps; a
release wakes the first of the queue, and a wake-up that finds nobody is kept for the next who comes.
Whoever is woken and leaves hands the wake-up on, so none is lost. A slot goes away with the release
that finds nobody who refers to its queue; a later slot of the path has another queue. A `LocalWait`
is one caller on its way; each of its steps is atomic. A lock that was freed is not held:
`isHeld_unlock`.
-/

namespace DurableQueue

/-- Where callers wait for a lock. Callers are known by number. -/
structure WakeQueue where
  /-- Whether a wake-up is kept that nobody was there for. -/
  keepsWake : Bool
  /-- Callers that have not been woken, in the order in which they came. -/
  waiting : List Nat
  /-- Callers that were woken and have not gone on. -/
  woken : List Nat
  /-- Callers that refer to the queue. -/
  users : List Nat
deriving DecidableEq, Repr

namespace WakeQueue

def empty : WakeQueue := ⟨false, [], [], []⟩

/-- Wakes the first caller, or keeps the wake-up. -/
def wakeOne (q : WakeQueue) : WakeQueue :=
  match q.waiting with
  | [] => { q with keepsWake := true }
  | i :: rest => { q with waiting := rest, woken := q.woken ++ [i] }

/-- A caller joins, unless a wake-up is kept for it; answers whether there was one. -/
def join (q : WakeQueue) (i : Nat) : Bool × WakeQueue :=
  if q.keepsWake then (true, { q with keepsWake := false })
  else (false, { q with waiting := q.waiting ++ [i] })

/-- A caller goes on with its wake-up. -/
def goOn (q : WakeQueue) (i : Nat) : WakeQueue := { q with woken := q.woken.erase i }

/-- A caller gives up its place; if it was woken, it hands the wake-up on. -/
def leave (q : WakeQueue) (i : Nat) : WakeQueue :=
  if q.woken.contains i then { q with woken := q.woken.erase i }.wakeOne
  else { q with waiting := q.waiting.erase i }

/-- A caller comes to refer to the queue. -/
def enter (q : WakeQueue) (i : Nat) : WakeQueue := { q with users := q.users ++ [i] }

/-- A caller no longer refers to the queue. -/
def part (q : WakeQueue) (i : Nat) : WakeQueue := { q with users := q.users.erase i }

end WakeQueue

/-- The lock of one path. -/
structure LockSlot where
  path : String
  isHeld : Bool
  /-- The number of its queue. -/
  queue : Nat
deriving DecidableEq, Repr

/-- The locks of one process. -/
structure LocalLocks where
  slots : List LockSlot
  /-- Every queue ever made. -/
  queues : List WakeQueue

namespace LocalLocks

def empty : LocalLocks := ⟨[], []⟩

instance : Inhabited LocalLocks := ⟨empty⟩

def slot? (l : LocalLocks) (path : String) : Option LockSlot :=
  l.slots.find? fun s => s.path == path

/-- Marks a lock as held or free. -/
def setHeld (l : LocalLocks) (path : String) (isHeld : Bool) : LocalLocks :=
  { l with slots := l.slots.map fun s => if s.path = path then { s with isHeld } else s }

def onQueue (l : LocalLocks) (queue : Nat) (f : WakeQueue → WakeQueue) : LocalLocks :=
  { l with queues := l.queues.modify queue f }

def isHeld (l : LocalLocks) (path : String) : Bool := (l.slot? path).any LockSlot.isHeld

/-- Takes a lock that is free; otherwise the caller comes to refer to its queue, whose number is
the answer. -/
def tryAcquire (l : LocalLocks) (path : String) (i : Nat) : Option Nat × LocalLocks :=
  match l.slot? path with
  | none =>
    (none, ⟨l.slots ++ [⟨path, true, l.queues.length⟩], l.queues ++ [.empty]⟩)
  | some s =>
    if s.isHeld then (some s.queue, l.onQueue s.queue fun q => q.enter i)
    else (none, l.setHeld path true)

/-- Joins a queue; answers whether a wake-up was kept. -/
def join (l : LocalLocks) (queue i : Nat) : Bool × LocalLocks :=
  match l.queues[queue]? with
  | none => (false, l)
  | some q => ((q.join i).1, l.onQueue queue fun q => (q.join i).2)

/-- Whether a caller was woken. -/
def isWoken (l : LocalLocks) (queue i : Nat) : Bool :=
  (l.queues[queue]?).any fun q => q.woken.contains i

/-- Whether somebody refers to a queue. -/
def isUsed (l : LocalLocks) (queue : Nat) : Bool := (l.queues[queue]?).any fun q => !q.users.isEmpty

/-- Frees a lock. A slot goes away if nobody refers to its queue; otherwise the first of the queue is
woken. -/
def unlock (l : LocalLocks) (path : String) : LocalLocks :=
  match l.slot? path with
  | none => l
  | some s =>
    if l.isUsed s.queue then (l.setHeld path false).onQueue s.queue WakeQueue.wakeOne
    else { l with slots := l.slots.filter fun s => s.path != path }

@[simp] theorem slot?_onQueue (l : LocalLocks) (queue : Nat) (f : WakeQueue → WakeQueue)
    (path : String) : (l.onQueue queue f).slot? path = l.slot? path := rfl

@[simp] theorem isHeld_onQueue (l : LocalLocks) (queue : Nat) (f : WakeQueue → WakeQueue)
    (path : String) : (l.onQueue queue f).isHeld path = l.isHeld path := rfl

@[simp] theorem queues_setHeld (l : LocalLocks) (path : String) (isHeld : Bool) :
    (l.setHeld path isHeld).queues = l.queues := rfl

theorem slot?_setHeld (l : LocalLocks) (path : String) (isHeld : Bool) (other : String) :
    (l.setHeld path isHeld).slot? other =
      if other = path then (l.slot? other).map fun s => { s with isHeld } else l.slot? other := by
  unfold setHeld slot?
  simp only
  induction l.slots with
  | nil => simp
  | cons s rest ih =>
    by_cases hs : s.path = other
    · by_cases ho : other = path
      · simp [hs, ho]
      · simp [hs, ho]
    · by_cases hp : s.path = path
      · have hne : other ≠ path := fun h => hs (hp.trans h.symm)
        simp [hp, hne, Ne.symm hne] at ih ⊢
        exact ih
      · simp [hs, hp] at ih ⊢
        exact ih

theorem slot?_remove (l : LocalLocks) (path other : String) :
    ({ l with slots := l.slots.filter fun s => s.path != path } : LocalLocks).slot? other =
      if other = path then none else l.slot? other := by
  unfold slot?
  rw [List.find?_filter]
  by_cases h : other = path
  · subst h
    rw [if_pos rfl, List.find?_eq_none]
    simp
  · rw [if_neg h]
    congr 1
    funext s
    by_cases hs : s.path = other
    · simp [hs, h]
    · simp [hs]

theorem slot?_add (l : LocalLocks) (path : String) (queue : Nat) (queues : List WakeQueue)
    (h : l.slot? path = none) (other : String) :
    (⟨l.slots ++ [⟨path, true, queue⟩], queues⟩ : LocalLocks).slot? other =
      if other = path then some ⟨path, true, queue⟩ else l.slot? other := by
  unfold slot? at h ⊢
  rw [List.find?_append]
  by_cases ho : other = path
  · subst ho
    simp [h]
  · have hne : (path == other) = false := by simpa using Ne.symm ho
    simp [ho, hne]

theorem isHeld_unlock (l : LocalLocks) (path : String) : (l.unlock path).isHeld path = false := by
  unfold unlock
  split
  · rename_i h
    simp [isHeld, h]
  · rename_i s h
    split
    · simp [isHeld, slot?_setHeld, h]
    · simp [isHeld, slot?_remove]

end LocalLocks

/-- Where a caller is on its way to a lock. -/
inductive LocalStage where
  /-- It is about to try. -/
  | trying
  /-- It found the lock held and is about to join the queue. -/
  | joining (queue : Nat)
  /-- It is about to look once more; `wasKept` tells whether a wake-up was kept for it. -/
  | checking (queue : Nat) (wasKept : Bool)
  | sleeping (queue : Nat)
  /-- It is about to leave the queue, to try again or since the deadline has passed. -/
  | leaving (queue : Nat) (gaveUp : Bool)
  /-- It has left the queue and still refers to it. -/
  | parting (queue : Nat) (gaveUp : Bool)
  /-- It has the lock, or the deadline has passed. -/
  | over (isAcquired : Bool)
deriving DecidableEq, Repr

/-- A caller on its way to a lock. -/
structure LocalWait where
  path : String
  /-- The millisecond at which it gives up. -/
  deadline : Nat
  stage : LocalStage
deriving DecidableEq, Repr

namespace LocalWait

/-- A caller that begins. -/
def begin_ (path : String) (deadline : Nat) : LocalWait := ⟨path, deadline, .trying⟩

/-- The next step of caller `i`; none while it sleeps. A wake-up counts before the deadline. -/
def step? (i now : Nat) (w : LocalWait) (l : LocalLocks) : Option (LocalWait × LocalLocks) :=
  match w.stage with
  | .trying =>
    match l.tryAcquire w.path i with
    | (none, l) => some ({ w with stage := .over true }, l)
    | (some queue, l) => some ({ w with stage := .joining queue }, l)
  | .joining queue =>
    let (wasKept, l) := l.join queue i
    some ({ w with stage := .checking queue wasKept }, l)
  | .checking queue true => some ({ w with stage := .parting queue false }, l)
  | .checking queue false =>
    if l.isHeld w.path then some ({ w with stage := .sleeping queue }, l)
    else some ({ w with stage := .leaving queue false }, l)
  | .sleeping queue =>
    if l.isWoken queue i then
      some ({ w with stage := .parting queue false }, l.onQueue queue fun q => q.goOn i)
    else if w.deadline ≤ now then some ({ w with stage := .leaving queue true }, l)
    else none
  | .leaving queue gaveUp =>
    some ({ w with stage := .parting queue gaveUp }, l.onQueue queue fun q => q.leave i)
  | .parting queue gaveUp =>
    some ({ w with stage := if gaveUp then .over false else .trying },
      l.onQueue queue fun q => q.part i)
  | .over _ => none

def wakeTime? (w : LocalWait) : Option Nat :=
  match w.stage with
  | .sleeping _ => some w.deadline
  | _ => none

/-- Takes a caller away in the midst of its wait. -/
def abandon (i : Nat) (w : LocalWait) (l : LocalLocks) : LocalLocks :=
  match w.stage with
  | .checking queue false | .sleeping queue | .leaving queue _ =>
    l.onQueue queue fun q => (q.leave i).part i
  | .joining queue | .checking queue true | .parting queue _ => l.onQueue queue fun q => q.part i
  | .trying | .over _ => l

end LocalWait

end DurableQueue
