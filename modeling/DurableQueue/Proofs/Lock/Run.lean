import DurableQueue.Trial.Locks

/-!
Everything that can happen to a locker, in any order.

A `LockAction` is one atomic step of a task of the locker, or something that its users, its sessions
or time do. `Locker.act` carries it out, and changes nothing where it cannot happen. `Locker.run`
carries out any list of them, so that its results are the states that interleavings reach; unlike
`Locker.system` it leaves the choice of the next task open.
-/

namespace DurableQueue

open Trial

/-- Something that happens to a locker. -/
inductive LockAction where
  /-- A task takes its next step. -/
  | task (t : LockTask)
  /-- The deadline of a call passes before the signals that wait for it count. -/
  | timeOut (call : Nat)
  | start (r : LockRequest)
  | abort (call : Nat)
  | detach (call : Nat)
  /-- Whoever has the lock that a call acquired parts with it. -/
  | part (call : Nat) (way : LockParting)
  | isFree (client : Nat) (service key : String)
  | openSession
  | clone (client : Nat)
  | undergo (client : Nat) (change : SessionEvent)
  /-- Time passes. -/
  | pass (millis : Nat)

namespace Acquisition

/-- A contender gives up at its deadline, whatever signals wait for it. -/
def timeOut? (now : Nat) (a : Acquisition) : Option Acquisition :=
  match a.stage with
  | .awaiting =>
    if a.deadline ≤ now then some { a.apply .timedOut with stage := .withdrawing } else none
  | _ => none

theorem timeOut?_eq_some {now : Nat} {a a' : Acquisition} (h : a.timeOut? now = some a') :
    a.stage = .awaiting ∧ a.deadline ≤ now ∧
      a' = { a.apply .timedOut with stage := .withdrawing } := by
  unfold timeOut? at h
  cases hstage : a.stage with
  | awaiting =>
    simp only [hstage] at h
    split at h
    · rename_i hdue
      exact ⟨rfl, hdue, (Option.some.inj h).symm⟩
    · cases h
  | _ =>
    simp only [hstage] at h
    cases h

end Acquisition

namespace LockCall

/-- The lock that a call acquired. -/
def lock? (call : LockCall) : Option GlobalLock := call.outcome?.bind LockOutcome.lock?

theorem progress_of_lock? {call : LockCall} {lock : GlobalLock} (h : call.lock? = some lock) :
    call.progress = .over (.acquired lock) := by
  obtain ⟨outcome, hout, hlock⟩ := Option.bind_eq_some_iff.mp h
  unfold outcome? at hout
  split at hout
  · rename_i hp
    cases hout
    cases outcome with
    | acquired own =>
      cases hlock
      exact hp
    | _ => cases hlock
  · cases hout

/-- The node on which the lock rests that a call acquired. -/
def heldNode? (call : LockCall) : Option String :=
  call.lock?.bind fun lock =>
    match lock.hold with
    | .shared _ node => some node
    | .inProcess _ => none

end LockCall

namespace Locker

/-- A call gives up at its deadline, whatever signals wait for it. -/
def timeOut? (l : Locker) (i : Nat) : Option Locker := do
  let call ← l.calls[i]?
  let a ← call.acquisition?
  let a ← a.timeOut? l.now
  if call.isAborted then none else some (l.setProgress i (.shared a))

/-- Parts with a lock. -/
def partWith (l : Locker) (lock : GlobalLock) : LockParting → Locker
  | .released => (l.release lock).2
  | .dropped => (l.drop lock).refresh
  | .droppedOutside => (l.dropOutside lock).refresh

/-- A locker after something happened. -/
def act (l : Locker) : LockAction → Locker
  | .task t => (system.step? t l).getD l
  | .timeOut i => ((l.timeOut? i).map refresh).getD l
  | .start r => if r.client < l.coordination.clients.length then (l.start r).2 else l
  | .abort i => l.abort i
  | .detach i => l.detach i
  | .part i way =>
    match (l.calls[i]?).bind LockCall.lock? with
    | some lock => l.partWith lock way
    | none => l
  | .isFree client service key => (l.isFree client service key).2
  | .openSession => { l with coordination := l.coordination.openSession.2 }.refresh
  | .clone client =>
    if client < l.coordination.clients.length then
      { l with coordination := (l.coordination.clone client).2 }.refresh
    else l
  | .undergo client change =>
    { l with coordination := l.coordination.onSession client (LockTrial.changeOf change) }.refresh
  | .pass millis => system.setNow (l.now + millis) l

/-- A locker over a coordination service after a run from its beginning. -/
def run (actions : List LockAction) : Locker := actions.foldl act (empty .shared)

theorem run_concat (actions : List LockAction) (x : LockAction) :
    run (actions ++ [x]) = (run actions).act x := by
  simp [run]

section

variable {l : Locker} {i : Nat} {call : LockCall} {progress : LockProgress}

theorem modify_eq_set_of_getElem? (h : l.calls[i]? = some call) (f : LockCall → LockCall) :
    l.calls.modify i f = l.calls.set i (f call) := by
  have : Inhabited LockCall := ⟨call⟩
  rw [List.modify_eq_set, h]
  rfl

theorem calls_setProgress (h : l.calls[i]? = some call) :
    (l.setProgress i progress).calls = l.calls.set i { call with progress } :=
  modify_eq_set_of_getElem? h _

theorem calls_drop (l : Locker) (lock : GlobalLock) : (l.drop lock).calls = l.calls := by
  unfold drop
  split <;> rfl

theorem coordination_drop (l : Locker) (lock : GlobalLock) :
    (l.drop lock).coordination = l.coordination := by
  unfold drop
  split <;> rfl

theorem backend_drop (l : Locker) (lock : GlobalLock) : (l.drop lock).backend = l.backend := by
  unfold drop
  split <;> rfl

/-- Dropping a lock leaves its node to be deleted. -/
theorem mem_cleanups_drop {lock : GlobalLock} {k : LockCleanup} (h : k ∈ (l.drop lock).cleanups)
    (hlock : call.lock? = some lock) : k ∈ l.cleanups ∨ call.heldNode? = some k.node := by
  unfold drop at h
  unfold LockCall.heldNode?
  rw [hlock]
  cases hhold : lock.hold with
  | inProcess path =>
    rw [hhold] at h
    exact .inl h
  | shared client node =>
    rw [hhold] at h
    rcases List.mem_append.mp h with h | h
    · exact .inl h
    · right
      rw [List.mem_singleton.mp h]
      simp [hhold]

/-- Moving a call changes it alone; a lock that nobody waits for is dropped. -/
theorem proceed_cases (l : Locker) (i : Nat) (call : LockCall) (progress : LockProgress) :
    l.proceed i call progress = l.setProgress i progress ∨
      ∃ lock, progress = .over (.acquired lock) ∧
        l.proceed i call progress = (l.setProgress i progress).drop lock := by
  unfold proceed
  simp only
  split
  · rename_i lock _
    exact .inr ⟨lock, rfl, rfl⟩
  · exact .inl rfl

end

end Locker

end DurableQueue
