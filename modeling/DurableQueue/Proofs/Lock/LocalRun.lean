import DurableQueue.Proofs.Lock.WakeQueue

/-!
Tasks that take and free locks of one process, in any order.

A `LocalScene` is the locks of a process and the tasks around them: each waits for a lock, has one,
or is done. `LocalScene.act` lets one task take its next atomic step, drops it while it sleeps, lets
it free its lock, or lets time pass. `LocalScene.run` carries out any list of such actions, so that
its results are the states that interleavings reach. `LocalWait.Move` says everything that a step of
a waiting task can do.
-/

namespace DurableQueue

namespace LocalStage

/-- The queue to which a caller refers. -/
def queue? : LocalStage → Option Nat
  | joining queue | checking queue _ | sleeping queue | leaving queue _ | parting queue _ => some queue
  | trying | .over _ => none

/-- Whether a caller has its place in the queue. -/
def isQueued : LocalStage → Bool
  | checking _ false | sleeping _ | leaving _ _ => true
  | _ => false

/-- Whether a caller is on its way to try, whatever the others do. -/
def isBusy : LocalStage → Bool
  | trying | joining _ | checking _ _ | leaving _ false | parting _ false => true
  | _ => false

end LocalStage

/-- What a task does about locks. -/
inductive LocalTask where
  | waiting (w : LocalWait)
  /-- It has the lock of a path, neither released nor dropped. -/
  | holding (path : String)
  | done
deriving DecidableEq, Repr

namespace LocalTask

/-- What a task does once its wait has come this far. -/
def ofWait (w : LocalWait) : LocalTask :=
  match w.stage with
  | .over true => holding w.path
  | .over false => done
  | _ => waiting w

def stage? : LocalTask → Option LocalStage
  | waiting w => some w.stage
  | _ => none

end LocalTask

/-- The locks of a process and the tasks around them. -/
structure LocalScene where
  locks : LocalLocks
  /-- Milliseconds since the beginning. -/
  now : Nat
  /-- Every task ever started. -/
  tasks : List LocalTask

/-- Something that happens around the locks of a process. -/
inductive LocalAction where
  /-- A task starts to wait for a lock. -/
  | start (path : String) (deadline : Nat)
  /-- A task takes its next step. -/
  | step (task : Nat)
  /-- A task is dropped while it sleeps. -/
  | cancel (task : Nat)
  /-- A task releases or drops its lock. -/
  | unlock (task : Nat)
  /-- Time passes. -/
  | pass (millis : Nat)

namespace LocalScene

def empty : LocalScene := ⟨.empty, 0, []⟩

def setTask (s : LocalScene) (i : Nat) (t : LocalTask) (locks : LocalLocks) : LocalScene :=
  { s with locks, tasks := s.tasks.set i t }

def act (s : LocalScene) : LocalAction → LocalScene
  | .start path deadline => { s with tasks := s.tasks ++ [.waiting (.begin_ path deadline)] }
  | .step i =>
    match s.tasks[i]? with
    | some (.waiting w) =>
      match w.step? i s.now s.locks with
      | some (w, locks) => s.setTask i (.ofWait w) locks
      | none => s
    | _ => s
  | .cancel i =>
    match s.tasks[i]? with
    | some (.waiting w) =>
      match w.stage with
      | .sleeping queue => s.setTask i (.waiting { w with stage := .leaving queue true }) s.locks
      | _ => s
    | _ => s
  | .unlock i =>
    match s.tasks[i]? with
    | some (.holding path) => s.setTask i .done (s.locks.unlock path)
    | _ => s
  | .pass millis => { s with now := s.now + millis }

/-- The scene after a run from its beginning. -/
def run (actions : List LocalAction) : LocalScene := actions.foldl act empty

theorem run_append (actions more : List LocalAction) :
    run (actions ++ more) = more.foldl act (run actions) := by
  simp [run]

theorem run_concat (actions : List LocalAction) (x : LocalAction) :
    run (actions ++ [x]) = (run actions).act x := by
  simp [run]

end LocalScene

namespace LocalLocks

variable {l l' : LocalLocks} {path : String} {slot : LockSlot} {i n : Nat}

theorem isHeld_of_slot? (h : l.slot? path = some slot) : l.isHeld path = slot.isHeld := by
  simp [isHeld, h]

theorem exists_slot_of_isHeld (h : l.isHeld path = true) :
    ∃ slot, l.slot? path = some slot ∧ slot.isHeld = true := by
  unfold isHeld at h
  cases hs : l.slot? path with
  | none =>
    rw [hs] at h
    cases h
  | some slot =>
    rw [hs] at h
    exact ⟨slot, rfl, h⟩

theorem tryAcquire_of_held (h : l.slot? path = some slot) (hheld : slot.isHeld = true) (i : Nat) :
    l.tryAcquire path i = (some slot.queue, l.onQueue slot.queue fun q => q.enter i) := by
  simp [tryAcquire, h, hheld]

/-- What taking a free lock does: its slot is held, and a slot that is new has a new queue. -/
structure IsTaken (l l' : LocalLocks) (path : String) : Prop where
  held : l'.isHeld path = true
  kept : ∀ slot, l.slot? path = some slot →
    l'.slot? path = some { slot with isHeld := true } ∧ l'.queues = l.queues
  added : l.slot? path = none →
    l'.slot? path = some ⟨path, true, l.queues.length⟩ ∧ l'.queues = l.queues ++ [.empty]
  others : ∀ p ≠ path, l'.slot? p = l.slot? p

namespace IsTaken

/-- A slot is that of the path, with a new queue, or has the queue that it had. -/
theorem slot_cases (h : l.IsTaken l' path) {p : String} (hslot : l'.slot? p = some slot) :
    (p = path ∧ slot.queue = l.queues.length) ∨
      ∃ slot', l.slot? p = some slot' ∧ slot'.queue = slot.queue := by
  by_cases hp : p = path
  · subst hp
    cases hs : l.slot? p with
    | none =>
      rw [(h.added hs).1] at hslot
      cases hslot
      exact .inl ⟨rfl, rfl⟩
    | some slot' =>
      rw [(h.kept slot' hs).1] at hslot
      cases hslot
      exact .inr ⟨slot', rfl, rfl⟩
  · rw [h.others p hp] at hslot
    exact .inr ⟨slot, hslot, rfl⟩

/-- A slot that was there keeps its queue. -/
theorem keeps (h : l.IsTaken l' path) {p : String} (hslot : l.slot? p = some slot) :
    ∃ slot', l'.slot? p = some slot' ∧ slot'.queue = slot.queue := by
  by_cases hp : p = path
  · subst hp
    exact ⟨_, (h.kept slot hslot).1, rfl⟩
  · exact ⟨slot, (h.others p hp).trans hslot, rfl⟩

theorem queues_cases (h : l.IsTaken l' path) : l'.queues = l.queues ∨ l'.queues = l.queues ++ [.empty] := by
  cases hs : l.slot? path with
  | none => exact .inr (h.added hs).2
  | some slot => exact .inl (h.kept slot hs).2

/-- A queue was there before, or it is new and empty. -/
theorem queue_cases (h : l.IsTaken l' path) {q : WakeQueue} (hq : l'.queues[n]? = some q) :
    l.queues[n]? = some q ∨ n = l.queues.length ∧ q = .empty := by
  rcases h.queues_cases with heq | heq
  · rw [heq] at hq
    exact .inl hq
  · rw [heq, List.getElem?_append] at hq
    split at hq
    · exact .inl hq
    · have hlt := (List.getElem?_eq_some_iff.mp hq).1
      rw [List.length_singleton] at hlt
      exact .inr ⟨by omega, List.mem_singleton.mp (List.mem_of_getElem? hq)⟩

/-- The queue of a slot is there. -/
theorem placed (h : l.IsTaken l' path) (hl : ∀ p slot, l.slot? p = some slot → slot.queue < l.queues.length)
    {p : String} (hslot : l'.slot? p = some slot) : slot.queue < l'.queues.length := by
  by_cases hp : p = path
  · subst hp
    cases hs : l.slot? p with
    | none =>
      rw [(h.added hs).1] at hslot
      cases hslot
      rw [(h.added hs).2, List.length_append]
      exact Nat.lt_succ_self _
    | some slot' =>
      rw [(h.kept slot' hs).1] at hslot
      cases hslot
      rw [(h.kept slot' hs).2]
      exact hl p slot' hs
  · rw [h.others p hp] at hslot
    rcases h.queues_cases with heq | heq
    · rw [heq]
      exact hl p slot hslot
    · rw [heq, List.length_append]
      exact Nat.lt_succ_of_lt (hl p slot hslot)

end IsTaken

theorem tryAcquire_of_free (h : l.isHeld path = false) (i : Nat) :
    ∃ l', l.tryAcquire path i = (none, l') ∧ IsTaken l l' path := by
  cases hs : l.slot? path with
  | none =>
    have hadd := slot?_add l path l.queues.length (l.queues ++ [.empty]) hs
    refine ⟨_, by simp only [tryAcquire, hs]; rfl, ?_, ?_, ?_, ?_⟩
    · rw [isHeld, hadd, if_pos rfl]
      rfl
    · intro slot hslot
      rw [hs] at hslot
      cases hslot
    · intro _
      rw [hadd, if_pos rfl]
      exact ⟨rfl, rfl⟩
    · intro p hp
      rw [hadd, if_neg hp]
  | some slot =>
    have hfree : slot.isHeld = false := by
      rw [← isHeld_of_slot? hs]
      exact h
    have hset := slot?_setHeld l path true
    refine ⟨_, by simp only [tryAcquire, hs, hfree]; rfl, ?_, ?_, ?_, ?_⟩
    · rw [isHeld, hset, if_pos rfl, hs]
      rfl
    · intro slot' hslot
      rw [hs] at hslot
      cases hslot
      rw [hset, if_pos rfl, hs]
      exact ⟨rfl, rfl⟩
    · intro hnone
      rw [hs] at hnone
      cases hnone
    · intro p hp
      rw [hset, if_neg hp]

theorem getElem?_onQueue (l : LocalLocks) (n m : Nat) (f : WakeQueue → WakeQueue) :
    (l.onQueue n f).queues[m]? = if n = m then (l.queues[m]?).map f else l.queues[m]? := by
  rw [onQueue, List.getElem?_modify]
  by_cases h : n = m
  · simp [h]
  · simp [h]

theorem isWoken_iff : l.isWoken n i = true ↔ ∃ q, l.queues[n]? = some q ∧ i ∈ q.woken := by
  unfold isWoken
  cases l.queues[n]? with
  | none => simp
  | some q => simp

end LocalLocks

namespace LocalWait

/-- What a step of a waiting task does. -/
inductive Move (i now : Nat) (w : LocalWait) (l : LocalLocks) : LocalWait → LocalLocks → Prop where
  | took {l' : LocalLocks} (stage : w.stage = .trying) (free : l.isHeld w.path = false)
    (taken : l.IsTaken l' w.path) : Move i now w l { w with stage := .over true } l'
  | entered {slot : LockSlot} (stage : w.stage = .trying) (slot? : l.slot? w.path = some slot)
    (held : slot.isHeld = true) :
    Move i now w l { w with stage := .joining slot.queue }
      (l.onQueue slot.queue fun q => q.enter i)
  | joined {n : Nat} {q : WakeQueue} (stage : w.stage = .joining n) (queue : l.queues[n]? = some q) :
    Move i now w l { w with stage := .checking n (q.join i).1 } (l.onQueue n fun q => (q.join i).2)
  /-- A wake-up was kept for it. -/
  | spared {n : Nat} (stage : w.stage = .checking n true) :
    Move i now w l { w with stage := .parting n false } l
  | slept {n : Nat} (stage : w.stage = .checking n false) (held : l.isHeld w.path = true) :
    Move i now w l { w with stage := .sleeping n } l
  /-- The lock was freed before it slept. -/
  | stayed {n : Nat} (stage : w.stage = .checking n false) (free : l.isHeld w.path = false) :
    Move i now w l { w with stage := .leaving n false } l
  | woke {n : Nat} (stage : w.stage = .sleeping n) (woken : l.isWoken n i = true) :
    Move i now w l { w with stage := .parting n false } (l.onQueue n fun q => q.goOn i)
  | gaveUp {n : Nat} (stage : w.stage = .sleeping n) (due : w.deadline ≤ now) :
    Move i now w l { w with stage := .leaving n true } l
  | left {n : Nat} {gaveUp : Bool} (stage : w.stage = .leaving n gaveUp) :
    Move i now w l { w with stage := .parting n gaveUp } (l.onQueue n fun q => q.leave i)
  | parted {n : Nat} {gaveUp : Bool} (stage : w.stage = .parting n gaveUp) :
    Move i now w l { w with stage := if gaveUp then .over false else .trying }
      (l.onQueue n fun q => q.part i)

variable {i now : Nat} {w w' : LocalWait} {l l' : LocalLocks}

/-- Every step of a task whose queue is there is a move. -/
theorem move_of_step? (hq : ∀ n, w.stage.queue? = some n → ∃ q, l.queues[n]? = some q)
    (h : w.step? i now l = some (w', l')) : Move i now w l w' l' := by
  unfold step? at h
  cases hstage : w.stage with
  | trying =>
    simp only [hstage] at h
    cases hheld : l.isHeld w.path with
    | true =>
      obtain ⟨slot, hslot, hslotHeld⟩ := LocalLocks.exists_slot_of_isHeld hheld
      rw [LocalLocks.tryAcquire_of_held hslot hslotHeld] at h
      cases h
      exact .entered hstage hslot hslotHeld
    | false =>
      obtain ⟨l'', heq, htaken⟩ := LocalLocks.tryAcquire_of_free hheld i
      rw [heq] at h
      cases h
      exact .took hstage hheld htaken
  | joining n =>
    obtain ⟨q, hqueue⟩ := hq n (by rw [hstage]; rfl)
    simp only [hstage, LocalLocks.join, hqueue] at h
    cases h
    exact .joined hstage hqueue
  | checking n wasKept =>
    cases wasKept with
    | true =>
      simp only [hstage] at h
      cases h
      exact .spared hstage
    | false =>
      simp only [hstage] at h
      split at h
      · rename_i hheld
        cases h
        exact .slept hstage hheld
      · rename_i hfree
        cases h
        exact .stayed hstage (Bool.eq_false_iff.mpr hfree)
  | sleeping n =>
    simp only [hstage] at h
    split at h
    · rename_i hwoken
      cases h
      exact .woke hstage hwoken
    · split at h
      · rename_i hdue
        cases h
        exact .gaveUp hstage hdue
      · cases h
  | leaving n gaveUp =>
    simp only [hstage] at h
    cases h
    exact .left hstage
  | parting n gaveUp =>
    simp only [hstage] at h
    cases h
    exact .parted hstage
  | «over» isAcquired =>
    simp only [hstage] at h
    cases h

theorem Move.path_eq (h : Move i now w l w' l') : w'.path = w.path := by
  cases h <;> rfl

end LocalWait

end DurableQueue
