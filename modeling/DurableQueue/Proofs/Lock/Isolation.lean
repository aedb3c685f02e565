import DurableQueue.Proofs.Lock.OneAction

/-!
Locks on different services or keys do not interfere.

`Locker.alone` leaves out of a run whatever is done about other locks, and counts calls and watches anew.
`Locker.seen` lists what can be seen of one lock: how calls for it end and in which order, what whoever
releases it is told, and whether it is found free. Both runs show the same, though all locks share one tree,
one table of numbers and one table of watches, and a key may begin with another (`Locker.locks_isolated`).
-/

namespace DurableQueue

open Coordinator

/-- What can be seen of a lock. Calls are counted among those on the lock. -/
inductive LockSight where
  /-- A call ends. -/
  | ended (call : Nat) (outcome : LockOutcome)
  /-- Whoever releases what a call acquired is told this. -/
  | released (call : Nat) (answer : Except LockError Unit)
  /-- Whoever asks whether the lock is free is told this. -/
  | asked (answer : Except LockError Bool)
deriving DecidableEq

namespace Locker

/-- How the calls on a lock ended that have ended. -/
def outcomes (p : LockName) (l : Locker) : List (Option LockOutcome) :=
  (l.calls.filter fun c => c.request.isOn p).map LockCall.outcome?

/-- The calls that have ended since. -/
def endings (before after : List (Option LockOutcome)) : List LockSight :=
  after.zipIdx.filterMap fun (outcome, i) =>
    if (before[i]?).any Option.isSome then none else outcome.map (.ended i)

/-- What whoever does something about a lock is told. -/
def answer? (p : LockName) (l : Locker) : LockAction → Option LockSight
  | .part i .released => do
    let number ← l.number? p i
    let lock ← (l.calls[i]?).bind LockCall.lock?
    return .released number (l.release lock).1
  | .isFree client service key =>
    if ⟨service, key⟩ = p then some (.asked (l.isFree client service key).1) else none
  | _ => none

/-- What can be seen of a lock when something happens. -/
def sights (p : LockName) (l : Locker) (x : LockAction) : List LockSight :=
  (l.answer? p x).toList ++ endings (l.outcomes p) ((l.act x).outcomes p)

/-- What can be seen of a lock during a run. -/
def seen (p : LockName) : Locker → List LockAction → List LockSight
  | _, [] => []
  | l, x :: rest => l.sights p x ++ seen p (l.act x) rest

/-- A run without whatever is done about other locks. -/
def alone (p : LockName) : Locker → List LockAction → List LockAction
  | _, [] => []
  | l, x :: rest => (l.on? p x).toList ++ alone p (l.act x) rest

variable {p : LockName} {Q : Nat → Nat → Prop} {l l' : Locker} {i' : Nat} {c' : LockCall} {x x' : LockAction}

theorem endings_self (outcomes : List (Option LockOutcome)) : endings outcomes outcomes = [] := by
  refine List.filterMap_eq_nil_iff.mpr fun ⟨outcome, i⟩ hmem => ?_
  have hi := List.mem_zipIdx_iff_getElem?.mp hmem
  simp only at hi
  simp only [hi, Option.any_some]
  cases outcome <;> rfl

theorem answer?_of_on?_eq_none (hon : l.on? p x = none) : l.answer? p x = none := by
  cases x with
  | part i way =>
    cases way with
    | released =>
      have hnumber := Option.map_eq_none_iff.mp hon
      rw [answer?, hnumber]
      rfl
    | _ => rfl
  | isFree client service key =>
    rw [on?, ite_eq_right_iff] at hon
    exact if_neg fun heq => Option.some_ne_none _ (hon heq)
  | _ => rfl

namespace Shows

/-- Where only this lock is counted, the numbers of calls are their places. -/
theorem number?_self (h : Shows p Q l l') (hi' : l'.calls[i']? = some c') : l'.number? p i' = some i' := by
  refine rank?_eq_some_self (fun r hr => ?_) (x := c'.request)
    (by rw [List.getElem?_map, hi', Option.map_some])
  obtain ⟨c, hc, rfl⟩ := List.mem_map.mp hr
  exact h.calls.only c hc

theorem outcomes_eq (h : Shows p Q l l') : l'.outcomes p = l.outcomes p := by
  have honly : (l'.calls.filter fun c => c.request.isOn p) = l'.calls := List.filter_eq_self.mpr h.calls.only
  have hlength : (l.calls.filter fun c => c.request.isOn p).length = l'.calls.length := by
    rw [h.calls.count, List.countP_map, List.countP_eq_length_filter]
    rfl
  rw [outcomes, outcomes, honly]
  refine List.ext_getElem? fun j => ?_
  by_cases hj : j < l'.calls.length
  · obtain ⟨i, hi⟩ := exists_ranked (h.calls.count ▸ hj)
    obtain ⟨c, c', hc, hc', halike⟩ := h.exists_call hi
    have hfilter := getElem?_filter_rankOf hc (LockCall.Shown.isOn_of_numbered hi hc)
      (P := fun c => c.request.isOn p)
    rw [rankOf_map (P := LockRequest.isOn p) LockCall.request l.calls fun _ => rfl, hi.rank] at hfilter
    rw [List.getElem?_map, List.getElem?_map, hc', hfilter, Option.map_some, Option.map_some,
      halike.outcome?_eq]
  · rw [List.getElem?_eq_none (by simpa using hj), List.getElem?_eq_none (by simpa [hlength] using hj)]

/-- Whoever does something about the lock is told the same on both sides. -/
theorem answer?_eq (h : Shows p Q l l') (hon : l.on? p x = some x') : l'.answer? p x' = l.answer? p x := by
  cases x with
  | part i way =>
    obtain ⟨i', hnumber, rfl⟩ := Option.map_eq_some_iff.mp hon
    cases way with
    | released =>
      have hnumbered := number?_eq_some_iff.mp hnumber
      obtain ⟨c, c', hi, hi', halike⟩ := h.exists_call hnumbered
      have hon := LockCall.Shown.isOn_of_numbered hnumbered hi
      rw [answer?, answer?, hnumber, h.number?_self hi', hi, hi', Option.bind_some, Option.bind_some,
        halike.lock?_eq]
      cases hlock : c.lock? with
      | none => rfl
      | some lock =>
        have hhome := LockCall.isAtHome_of_lock? (h.calls.home c (List.mem_of_getElem? hi)) hlock
        exact congrArg (fun answer => some (LockSight.released i' answer)) (h.release hon hhome).1
    | _ => rfl
  | isFree client service key =>
    obtain ⟨hp, hx⟩ := Option.ite_none_right_eq_some.mp hon
    cases hx
    subst hp
    rw [answer?, answer?, if_pos rfl, if_pos rfl, h.isFree_fst client]
  | task t =>
    cases t with
    | watch i w =>
      obtain ⟨i', -, hon⟩ := Option.bind_eq_some_iff.mp hon
      obtain ⟨w', -, rfl⟩ := Option.map_eq_some_iff.mp hon
      rfl
    | cleanup k =>
      obtain ⟨-, hx⟩ := Option.ite_none_right_eq_some.mp hon
      cases hx
      rfl
    | _ =>
      obtain ⟨i', -, rfl⟩ := Option.map_eq_some_iff.mp hon
      rfl
  | start r =>
    obtain ⟨-, hx⟩ := Option.ite_none_right_eq_some.mp hon
    cases hx
    rfl
  | timeOut i | abort i | detach i =>
    obtain ⟨i', -, rfl⟩ := Option.map_eq_some_iff.mp hon
    rfl
  | openSession | clone client | undergo client change | pass millis =>
    cases hon
    rfl

/-- What happens to the lock is seen alike on both sides. -/
theorem sights_eq (h : Shows p Q l l') (hon : l.on? p x = some x') : l'.sights p x' = l.sights p x := by
  obtain ⟨Q', hafter⟩ := h.act hon
  rw [sights, sights, h.answer?_eq hon, h.outcomes_eq, hafter.outcomes_eq]

/-- What happens to other locks is not seen. -/
theorem sights_elsewhere (h : Shows p Q l l') (hon : l.on? p x = none) : l.sights p x = [] := by
  have houtcomes := (h.act_elsewhere hon).outcomes_eq
  rw [sights, answer?_of_on?_eq_none hon, ← houtcomes, h.outcomes_eq, endings_self]
  rfl

/-- A run leaves what its part about the lock leaves, and shows the same of the lock. -/
theorem run (h : Shows p Q l l') (xs : List LockAction) :
    l'.seen p (l.alone p xs) = l.seen p xs ∧
      ∃ Q', Shows p Q' (xs.foldl Locker.act l) ((l.alone p xs).foldl Locker.act l') := by
  induction xs generalizing Q l l' with
  | nil => exact ⟨rfl, Q, h⟩
  | cons x rest ih =>
    cases hon : l.on? p x with
    | none =>
      obtain ⟨hseen, hshows⟩ := ih (h.act_elsewhere hon)
      rw [alone, hon]
      refine ⟨?_, hshows⟩
      rw [seen, h.sights_elsewhere hon]
      exact hseen
    | some x' =>
      obtain ⟨Q', hafter⟩ := h.act hon
      obtain ⟨hseen, hshows⟩ := ih hafter
      rw [alone, hon]
      refine ⟨?_, hshows⟩
      rw [seen, ← h.sights_eq hon, ← hseen]
      rfl

end Shows

/-- Lock directories are told apart, and locks do not interfere. A directory is given to components that are
there and hold no slash, and to one service and key only. Whatever is done, on whichever service and key, in
whichever order, each lock is seen as in the run from which all that concerns other locks is left out; that
run has no other calls. In every tree that is reached, a scan along the paths that begin with a directory
finds its children and no others. -/
theorem locks_isolated :
    (∀ service key, (∃ d, lockDirectory service key = .ok d) ↔
      (service ≠ "" ∧ '/' ∉ service.toList) ∧ key ≠ "" ∧ '/' ∉ key.toList) ∧
    (∀ (p q : LockName) (d : String),
      lockDirectory p.service p.key = .ok d → lockDirectory q.service q.key = .ok d → p = q) ∧
    ∀ (backend : LockBackend) (p : LockName) (xs : List LockAction),
      (empty backend).seen p xs = (empty backend).seen p ((empty backend).alone p xs) ∧
      (∀ c ∈ (((empty backend).alone p xs).foldl act (empty backend)).calls,
        c.request.service = p.service ∧ c.request.key = p.key) ∧
      ∀ parent, (xs.foldl act (empty backend)).coordination.coordinator.scan parent =
        (xs.foldl act (empty backend)).coordination.coordinator.childNames parent := by
  refine ⟨fun _ _ => exists_lockDirectory_iff, fun p q d hp hq => ?_, fun backend p xs => ?_⟩
  · have hdirectory := (directory_eq_iff hp p).mpr rfl
    exact ((directory_eq_iff hq p).mp hdirectory).symm
  · obtain ⟨hseen, Q, hshows⟩ := (Shows.empty p backend).run xs
    refine ⟨hseen.symm, fun c hc => ?_, scan_eq_childNames hshows.tidy.sorted⟩
    have hname : c.request.name = p := beq_iff_eq.mp (hshows.calls.only c hc)
    exact ⟨congrArg LockName.service hname, congrArg LockName.key hname⟩

/-- Two calls ask for a lock, two for one whose key goes on from its key, and all take their steps in turn.
Whoever has the first lock releases it. -/
def prefixedRun : List LockAction :=
  [.openSession, .start ⟨0, "jobs", "k2", .ofSeconds 60⟩, .start ⟨0, "jobs", "k", .ofSeconds 60⟩,
    .start ⟨0, "jobs", "k2", .ofSeconds 60⟩, .start ⟨0, "jobs", "k", .ofSeconds 60⟩] ++
    (List.replicate 5 [.task (.call 0), .task (.call 1), .task (.call 2), .task (.call 3)]).flatten ++
    [.isFree 0 "jobs" "k", .part 1 .released, .task (.watch 3 1)] ++ List.replicate 4 (.task (.call 3))

theorem locks_isolated_prefixedRun :
    (empty .shared).seen ⟨"jobs", "k"⟩ ((empty .shared).alone ⟨"jobs", "k"⟩ prefixedRun) =
      [.ended 0 (.acquired ⟨"jobs", "k", .shared 0 "/jobs/k/lock-0000000000"⟩), .asked (.ok false),
        .released 0 (.ok ()), .ended 1 (.acquired ⟨"jobs", "k", .shared 0 "/jobs/k/lock-0000000001"⟩)] ∧
    (empty .inProcess).seen ⟨"jobs", "k"⟩ ((empty .inProcess).alone ⟨"jobs", "k"⟩ prefixedRun) =
      [.ended 0 (.acquired ⟨"jobs", "k", .inProcess "/jobs/k"⟩), .asked (.ok false),
        .released 0 (.ok ()), .ended 1 (.acquired ⟨"jobs", "k", .inProcess "/jobs/k"⟩)] := by
  obtain ⟨-, -, hisolated⟩ := locks_isolated
  rw [← (hisolated .shared _ _).1, ← (hisolated .inProcess _ _).1]
  exact ⟨by decide +kernel, by decide +kernel⟩

end Locker

end DurableQueue
