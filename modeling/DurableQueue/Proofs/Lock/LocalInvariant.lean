import DurableQueue.Proofs.Lock.LocalRun
import Mathlib.Data.List.Induction

/-!
What tasks and the locks of a process keep through every run.

`LocalScene.IsSound` says that a lock is held just when a task has it, and one task only; that
whoever refers to a queue refers to the one of the present slot of its path; and that a queue knows
its callers (`WakeQueue.IsSound`). Every step of a waiting task keeps it (`IsSound.of_move`), and so
does every action (`isSound_act`).
-/

namespace DurableQueue

namespace LocalTask

/-- The queue to which a task refers. -/
def queue? (t : LocalTask) : Option Nat := t.stage?.bind LocalStage.queue?

/-- Whether a task has its place in a queue. -/
def isQueued (t : LocalTask) : Bool := t.stage?.any LocalStage.isQueued

@[simp] theorem queue?_waiting (w : LocalWait) : (waiting w).queue? = w.stage.queue? := rfl

@[simp] theorem isQueued_waiting (w : LocalWait) : (waiting w).isQueued = w.stage.isQueued := rfl

@[simp] theorem queue?_holding (path : String) : (holding path).queue? = none := rfl

@[simp] theorem queue?_done : done.queue? = none := rfl

end LocalTask

namespace LocalScene

/-- Whether a task is there and has a property. -/
def Has (s : LocalScene) (i : Nat) (P : LocalTask → Prop) : Prop := ∃ t, s.tasks[i]? = some t ∧ P t

/-- Whether a task refers to a queue. -/
def Refers (s : LocalScene) (n i : Nat) : Prop := s.Has i fun t => t.queue? = some n

/-- Whether a task has its place in a queue. -/
def Waits (s : LocalScene) (n i : Nat) : Prop :=
  s.Has i fun t => t.queue? = some n ∧ t.isQueued = true

/-- What the locks of a process and the tasks around them keep. -/
structure IsSound (s : LocalScene) : Prop where
  served : ∀ (n : Nat) (q : WakeQueue), s.locks.queues[n]? = some q →
    q.IsSound (s.Refers n) (s.Waits n)
  placed : ∀ path slot, s.locks.slot? path = some slot → slot.queue < s.locks.queues.length
  apart : ∀ path path' slot slot', s.locks.slot? path = some slot →
    s.locks.slot? path' = some slot' → slot.queue = slot'.queue → path = path'
  current : ∀ (i : Nat) (w : LocalWait) (n : Nat), s.tasks[i]? = some (.waiting w) →
    w.stage.queue? = some n → ∃ slot, s.locks.slot? w.path = some slot ∧ slot.queue = n
  held : ∀ path, s.locks.isHeld path = true ↔ ∃ i : Nat, s.tasks[i]? = some (.holding path)
  single : ∀ (i j : Nat) (path : String), s.tasks[i]? = some (.holding path) →
    s.tasks[j]? = some (.holding path) → i = j

variable {s : LocalScene} {i j n : Nat} {t t' : LocalTask} {locks : LocalLocks} {w : LocalWait}
  {path : String} {P : LocalTask → Prop}

theorem getElem?_setTask (hi : s.tasks[i]? = some t) (t' : LocalTask) (locks : LocalLocks) (j : Nat) :
    (s.setTask i t' locks).tasks[j]? = if j = i then some t' else s.tasks[j]? := by
  have hlt := (List.getElem?_eq_some_iff.mp hi).1
  rw [setTask, List.getElem?_set]
  by_cases h : j = i
  · simp [h, hlt]
  · simp [h, Ne.symm h]

theorem has_iff (hi : s.tasks[i]? = some t) : s.Has i P ↔ P t := by
  simp [Has, hi]

theorem has_setTask (hi : s.tasks[i]? = some t) :
    (s.setTask i t' locks).Has j P ↔ (j = i ∧ P t') ∨ (j ≠ i ∧ s.Has j P) := by
  unfold Has
  rw [getElem?_setTask hi]
  by_cases h : j = i
  · simp [h]
  · simp [h]

/-- A property that a task has as before, all tasks have as before. -/
theorem has_setTask_of_iff (hi : s.tasks[i]? = some t) (hP : P t' ↔ P t) :
    (s.setTask i t' locks).Has j P ↔ s.Has j P := by
  rw [has_setTask hi, hP]
  by_cases h : j = i
  · rw [h, has_iff hi]
    simp
  · simp [h]

/-- A property that a task comes to have. -/
theorem has_setTask_of_new (hi : s.tasks[i]? = some t) (hP : P t') :
    (s.setTask i t' locks).Has j P ↔ s.Has j P ∨ j = i := by
  rw [has_setTask hi]
  by_cases h : j = i
  · simp [h, hP]
  · simp [h]

/-- A property that a task no longer has. -/
theorem has_setTask_of_lost (hi : s.tasks[i]? = some t) (hP : ¬ P t') :
    (s.setTask i t' locks).Has j P ↔ s.Has j P ∧ j ≠ i := by
  rw [has_setTask hi]
  by_cases h : j = i
  · simp [h, hP]
  · simp [h]

/-- A queue with which a task has nothing to do, before and after. -/
theorem IsSound.served_elsewhere (h : s.IsSound) (hi : s.tasks[i]? = some t) {q : WakeQueue}
    (hq : s.locks.queues[n]? = some q) (ht : t.queue? ≠ some n) (ht' : t'.queue? ≠ some n) :
    q.IsSound ((s.setTask i t' locks).Refers n) ((s.setTask i t' locks).Waits n) := by
  refine (h.served n q hq).congr (fun j => ?_) fun j => ?_
  · exact (has_setTask_of_iff hi (by simp [ht, ht'])).symm
  · exact (has_setTask_of_iff hi (by simp [ht, ht'])).symm

/-- What changes one queue leaves all queues sound if it leaves that one sound. -/
theorem IsSound.served_onQueue (h : s.IsSound) (hi : s.tasks[i]? = some t) {f : WakeQueue → WakeQueue}
    (ht : ∀ m, t.queue? = some m → m = n) (ht' : ∀ m, t'.queue? = some m → m = n)
    (hf : ∀ q, s.locks.queues[n]? = some q →
      (f q).IsSound ((s.setTask i t' (s.locks.onQueue n f)).Refers n)
        ((s.setTask i t' (s.locks.onQueue n f)).Waits n)) (m : Nat) (q : WakeQueue)
    (hq : (s.locks.onQueue n f).queues[m]? = some q) :
    q.IsSound ((s.setTask i t' (s.locks.onQueue n f)).Refers m)
      ((s.setTask i t' (s.locks.onQueue n f)).Waits m) := by
  rw [LocalLocks.getElem?_onQueue] at hq
  split at hq
  · rename_i hm
    subst hm
    obtain ⟨old, hold, rfl⟩ := Option.map_eq_some_iff.mp hq
    exact hf old hold
  · rename_i hm
    exact h.served_elsewhere hi hq (fun hn => hm (ht m hn).symm) fun hn => hm (ht' m hn).symm

/-- A task that moves within its queue, or without one, while the locks stay as they are. -/
theorem IsSound.served_same (h : s.IsSound) (hi : s.tasks[i]? = some t) (hqueue : t'.queue? = t.queue?)
    (hqueued : t'.isQueued = t.isQueued) (m : Nat) (q : WakeQueue) (hq : s.locks.queues[m]? = some q) :
    q.IsSound ((s.setTask i t' s.locks).Refers m) ((s.setTask i t' s.locks).Waits m) := by
  refine (h.served m q hq).congr (fun j => ?_) fun j => ?_
  · exact (has_setTask_of_iff hi (by rw [hqueue])).symm
  · exact (has_setTask_of_iff hi (by rw [hqueue, hqueued])).symm

/-- Who has the lock of a path with which a task has nothing to do, before and after. -/
theorem holding_setTask (hi : s.tasks[i]? = some t) (ht : t ≠ .holding path) (ht' : t' ≠ .holding path) :
    (s.setTask i t' locks).tasks[j]? = some (.holding path) ↔ s.tasks[j]? = some (.holding path) := by
  rw [getElem?_setTask hi]
  by_cases hj : j = i
  · subst hj
    simp [hi, ht, ht']
  · simp [hj]

/-- The lock of a path whose slot stays as it is, and with which a task has nothing to do. -/
theorem IsSound.held_elsewhere (h : s.IsSound) (hi : s.tasks[i]? = some t) (ht : t ≠ .holding path)
    (ht' : t' ≠ .holding path) (hslot : locks.slot? path = s.locks.slot? path) :
    locks.isHeld path = true ↔ ∃ j : Nat, (s.setTask i t' locks).tasks[j]? = some (.holding path) := by
  rw [LocalLocks.isHeld, hslot, ← LocalLocks.isHeld, h.held path]
  simp only [holding_setTask hi ht ht']

/-- A task that goes on waiting, or gives up, leaves the slots as they are. -/
theorem IsSound.of_quiet (h : s.IsSound) (hi : s.tasks[i]? = some (.waiting w))
    (hslots : ∀ p, locks.slot? p = s.locks.slot? p)
    (hlength : locks.queues.length = s.locks.queues.length)
    (ht' : t' = .done ∨ ∃ w', t' = .waiting w' ∧ w'.path = w.path)
    (hcurrent : ∀ n, t'.queue? = some n → ∃ slot, s.locks.slot? w.path = some slot ∧ slot.queue = n)
    (hserved : ∀ (n : Nat) (q : WakeQueue), locks.queues[n]? = some q →
      q.IsSound ((s.setTask i t' locks).Refers n) ((s.setTask i t' locks).Waits n)) :
    (s.setTask i t' locks).IsSound := by
  have hnot : ∀ p, t' ≠ .holding p := by
    rintro p rfl
    rcases ht' with ht' | ⟨w', ht', -⟩
    · cases ht'
    · cases ht'
  refine ⟨hserved, ?_, ?_, ?_, fun p => h.held_elsewhere hi nofun (hnot p) (hslots p), ?_⟩
  · intro p slot hslot
    show slot.queue < locks.queues.length
    rw [hlength]
    exact h.placed p slot ((hslots p).symm.trans hslot)
  · intro p p' slot slot' hslot hslot'
    exact h.apart p p' slot slot' ((hslots p).symm.trans hslot) ((hslots p').symm.trans hslot')
  · intro j w' m hj hm
    show ∃ slot, locks.slot? w'.path = some slot ∧ slot.queue = m
    rw [hslots]
    rw [getElem?_setTask hi] at hj
    split at hj
    · cases hj
      rcases ht' with ht' | ⟨w'', ht', hpath⟩
      · cases ht'
      · cases ht'
        rw [hpath]
        exact hcurrent m hm
    · exact h.current j w' m hj hm
  · intro j k p hj hk
    exact h.single j k p ((holding_setTask hi nofun (hnot p)).mp hj)
      ((holding_setTask hi nofun (hnot p)).mp hk)

/-- A task that waits on in the same place, while the locks stay as they are. -/
theorem IsSound.of_restaged (h : s.IsSound) (hi : s.tasks[i]? = some (.waiting w)) {stage : LocalStage}
    (hqueue : stage.queue? = w.stage.queue?) (hqueued : stage.isQueued = w.stage.isQueued) :
    (s.setTask i (.waiting { w with stage }) s.locks).IsSound :=
  h.of_quiet hi (fun _ => rfl) rfl (.inr ⟨_, rfl, rfl⟩)
    (fun n hn => h.current i w n hi (hqueue.symm.trans hn)) (h.served_same hi hqueue hqueued)

theorem length_onQueue (locks : LocalLocks) (n : Nat) (f : WakeQueue → WakeQueue) :
    (locks.onQueue n f).queues.length = locks.queues.length := List.length_modify _ _ _

/-- A task that waits on and does something to its queue. -/
theorem IsSound.of_onQueue (h : s.IsSound) (hi : s.tasks[i]? = some (.waiting w)) {stage : LocalStage}
    {f : WakeQueue → WakeQueue} (hn : w.stage.queue? = some n) (hn' : stage.queue? = some n)
    (hf : ∀ q, s.locks.queues[n]? = some q →
      (f q).IsSound (s.Refers n)
        ((s.setTask i (.waiting { w with stage }) (s.locks.onQueue n f)).Waits n)) :
    (s.setTask i (.waiting { w with stage }) (s.locks.onQueue n f)).IsSound := by
  refine h.of_quiet hi (fun _ => rfl) (length_onQueue _ _ _) (.inr ⟨_, rfl, rfl⟩) ?_ ?_
  · intro m hm
    exact h.current i w m hi ((hn.trans hn'.symm).trans hm)
  · refine h.served_onQueue hi (fun m hm => Option.some.inj (hm.symm.trans hn))
      (fun m hm => Option.some.inj (hm.symm.trans hn')) fun q hq => ?_
    exact (hf q hq).congr (fun j => (has_setTask_of_iff hi (by simp [hn, hn'])).symm) fun _ => Iff.rfl

/-- A queue that is not there has no number to which a task could refer. -/
theorem IsSound.not_refers_new (h : s.IsSound) (j : Nat) : ¬ s.Refers s.locks.queues.length j := by
  rintro ⟨t, ht, hrefers⟩
  cases t with
  | waiting w' =>
    obtain ⟨slot, hslot, hn⟩ := h.current j w' _ ht hrefers
    exact Nat.lt_irrefl _ (hn ▸ h.placed _ _ hslot)
  | holding p => cases hrefers
  | done => cases hrefers

/-- The queues after a lock was taken that was free. -/
theorem IsSound.served_of_taken (h : s.IsSound) (hi : s.tasks[i]? = some (.waiting w))
    (hstage : w.stage = .trying) (htaken : s.locks.IsTaken locks w.path) {q : WakeQueue}
    (hq : locks.queues[n]? = some q) :
    q.IsSound ((s.setTask i (.holding w.path) locks).Refers n)
      ((s.setTask i (.holding w.path) locks).Waits n) := by
  have hqueue : (LocalTask.waiting w).queue? = none := by simp [hstage, LocalStage.queue?]
  rcases htaken.queue_cases hq with hold | ⟨rfl, rfl⟩
  · exact h.served_elsewhere hi hold (by simp [hqueue]) (by simp)
  · have hnobody : ∀ j, ¬ (s.setTask i (.holding w.path) locks).Refers s.locks.queues.length j := by
      intro j hrefers
      exact h.not_refers_new j ((has_setTask_of_iff hi (by simp [hqueue])).mp hrefers)
    refine .empty hnobody ?_
    rintro j ⟨t, ht, hrefers, -⟩
    exact hnobody j ⟨t, ht, hrefers⟩

/-- A task takes a lock that is free. -/
theorem IsSound.of_taken (h : s.IsSound) (hi : s.tasks[i]? = some (.waiting w))
    (hstage : w.stage = .trying) (hfree : s.locks.isHeld w.path = false)
    (htaken : s.locks.IsTaken locks w.path) : (s.setTask i (.holding w.path) locks).IsSound := by
  have hother : ∀ p ≠ w.path, LocalTask.holding w.path ≠ .holding p := by
    rintro p hp heq
    cases heq
    exact hp rfl
  refine ⟨fun n q hq => h.served_of_taken hi hstage htaken hq,
    fun p slot hslot => htaken.placed h.placed hslot, ?_, ?_, ?_, ?_⟩
  · intro p p' slot slot' hslot hslot' hn
    rcases htaken.slot_cases hslot with ⟨rfl, hm⟩ | ⟨a, ha, hm⟩
    · rcases htaken.slot_cases hslot' with ⟨rfl, -⟩ | ⟨b, hb, hm'⟩
      · rfl
      · have hlt := h.placed p' b hb
        omega
    · rcases htaken.slot_cases hslot' with ⟨rfl, hm'⟩ | ⟨b, hb, hm'⟩
      · have hlt := h.placed p a ha
        omega
      · exact h.apart p p' a b ha hb (by omega)
  · intro j w' m hj hm
    rw [getElem?_setTask hi] at hj
    split at hj
    · cases hj
    · obtain ⟨slot, hslot, rfl⟩ := h.current j w' m hj hm
      exact htaken.keeps hslot
  · intro p
    by_cases hp : p = w.path
    · subst hp
      exact ⟨fun _ => ⟨i, by rw [getElem?_setTask hi, if_pos rfl]⟩, fun _ => htaken.held⟩
    · exact h.held_elsewhere hi nofun (hother p hp) (htaken.others p hp)
  · intro j k p hj hk
    by_cases hp : p = w.path
    · subst hp
      -- nobody else has the lock that was free
      have hown : ∀ m : Nat, (s.setTask i (.holding w.path) locks).tasks[m]? = some (.holding w.path) →
          m = i := by
        intro m hm
        rw [getElem?_setTask hi] at hm
        split at hm
        · assumption
        · rw [(h.held w.path).mpr ⟨m, hm⟩] at hfree
          cases hfree
      exact (hown j hj).trans (hown k hk).symm
    · exact h.single j k p ((holding_setTask hi nofun (hother p hp)).mp hj)
        ((holding_setTask hi nofun (hother p hp)).mp hk)

/-- The queue of a task that waits. -/
theorem IsSound.exists_queue (h : s.IsSound) (hi : s.tasks[i]? = some (.waiting w))
    (hn : w.stage.queue? = some n) : ∃ q, s.locks.queues[n]? = some q := by
  obtain ⟨slot, hslot, rfl⟩ := h.current i w n hi hn
  exact ⟨_, List.getElem?_eq_getElem (h.placed _ _ hslot)⟩

theorem refers_iff (hi : s.tasks[i]? = some (.waiting w)) :
    s.Refers n i ↔ w.stage.queue? = some n := has_iff hi

theorem waits_iff (hi : s.tasks[i]? = some (.waiting w)) :
    s.Waits n i ↔ w.stage.queue? = some n ∧ w.stage.isQueued = true := has_iff hi

/-- A task that found its lock held comes to refer to the queue. -/
theorem IsSound.of_entered (h : s.IsSound) (hi : s.tasks[i]? = some (.waiting w))
    (hstage : w.stage = .trying) {slot : LockSlot} (hslot : s.locks.slot? w.path = some slot) :
    (s.setTask i (.waiting { w with stage := .joining slot.queue })
      (s.locks.onQueue slot.queue fun q => q.enter i)).IsSound := by
  refine h.of_quiet hi (fun _ => rfl) (length_onQueue _ _ _) (.inr ⟨_, rfl, rfl⟩) ?_ ?_
  · intro m hm
    cases hm
    exact ⟨slot, hslot, rfl⟩
  · refine h.served_onQueue hi (by simp [hstage, LocalStage.queue?]) (by simp [LocalStage.queue?])
      fun q hq => ?_
    have hnot : ¬ s.Refers slot.queue i := by simp [refers_iff hi, hstage, LocalStage.queue?]
    refine ((h.served _ q hq).enter hnot).congr (fun j => ?_) fun j => ?_
    · exact (has_setTask_of_new hi (by simp [LocalStage.queue?])).symm
    · exact (has_setTask_of_iff hi (by simp [hstage, LocalStage.queue?, LocalStage.isQueued])).symm

/-- A task joins the queue, or finds a wake-up that was kept. -/
theorem IsSound.of_joined (h : s.IsSound) (hi : s.tasks[i]? = some (.waiting w))
    (hstage : w.stage = .joining n) {q : WakeQueue} (hq : s.locks.queues[n]? = some q) :
    (s.setTask i (.waiting { w with stage := .checking n (q.join i).1 })
      (s.locks.onQueue n fun q => (q.join i).2)).IsSound := by
  refine h.of_onQueue hi (by rw [hstage]; rfl) rfl fun q' hq' => ?_
  obtain rfl := Option.some.inj (hq.symm.trans hq')
  have hserved := h.served n q hq
  cases hk : (q.join i).1 with
  | true =>
    refine (hserved.join_of_kept hk).congr (fun _ => Iff.rfl) fun j => ?_
    exact (has_setTask_of_iff hi (by simp [hstage, LocalStage.isQueued])).symm
  | false =>
    have hnot : ¬ s.Waits n i := by simp [waits_iff hi, hstage, LocalStage.isQueued]
    refine (hserved.join_of_not_kept hnot hk).congr (fun _ => Iff.rfl) fun j => ?_
    exact (has_setTask_of_new hi (by simp [LocalStage.queue?, LocalStage.isQueued])).symm

/-- A task that has left the queue no longer refers to it. -/
theorem IsSound.of_parted (h : s.IsSound) (hi : s.tasks[i]? = some (.waiting w)) {gaveUp : Bool}
    (hstage : w.stage = .parting n gaveUp)
    (ht' : t' = .done ∨ t' = .waiting { w with stage := .trying }) :
    (s.setTask i t' (s.locks.onQueue n fun q => q.part i)).IsSound := by
  have hqueue : t'.queue? = none := by rcases ht' with rfl | rfl <;> rfl
  refine h.of_quiet hi (fun _ => rfl) (length_onQueue _ _ _) ?_ (by simp [hqueue]) ?_
  · rcases ht' with ht' | ht'
    · exact .inl ht'
    · exact .inr ⟨_, ht', rfl⟩
  · refine h.served_onQueue hi (by simp [hstage, LocalStage.queue?]) (by simp [hqueue]) fun q hq => ?_
    refine ((h.served n q hq).part i).congr (fun j => ?_) fun j => ?_
    · exact (has_setTask_of_lost hi (by simp [hqueue])).symm
    · exact (has_setTask_of_iff hi (by simp [hqueue, hstage, LocalStage.isQueued])).symm

/-- Everything that a waiting task does leaves the scene sound. -/
theorem IsSound.of_move {now : Nat} {w' : LocalWait} (h : s.IsSound)
    (hi : s.tasks[i]? = some (.waiting w)) (hm : w.Move i now s.locks w' locks) :
    (s.setTask i (.ofWait w') locks).IsSound := by
  -- whoever leaves the places of the queue still refers to it
  have hleft : ∀ (n : Nat) (gaveUp : Bool) (j : Nat) (locks : LocalLocks), s.Waits n j ∧ j ≠ i ↔
      (s.setTask i (.waiting { w with stage := .parting n gaveUp }) locks).Waits n j :=
    fun n gaveUp j locks => (has_setTask_of_lost hi (by simp [LocalStage.isQueued])).symm
  cases hm with
  | took stage free taken =>
    have htaken := h.of_taken hi stage free taken
    exact htaken
  | entered stage hslot held => exact h.of_entered hi stage hslot
  | joined stage queue => exact h.of_joined hi stage queue
  | spared stage =>
    exact h.of_restaged hi (by simp [stage, LocalStage.queue?]) (by simp [stage, LocalStage.isQueued])
  | slept stage held =>
    exact h.of_restaged hi (by simp [stage, LocalStage.queue?]) (by simp [stage, LocalStage.isQueued])
  | stayed stage free =>
    exact h.of_restaged hi (by simp [stage, LocalStage.queue?]) (by simp [stage, LocalStage.isQueued])
  | @woke n stage woken =>
    refine h.of_onQueue hi (by rw [stage]; rfl) rfl fun q hq => ?_
    obtain ⟨q', hq', hmem⟩ := LocalLocks.isWoken_iff.mp woken
    obtain rfl := Option.some.inj (hq.symm.trans hq')
    exact ((h.served n q hq).goOn hmem).congr (fun _ => Iff.rfl) fun j => hleft n false j _
  | gaveUp stage due =>
    exact h.of_restaged hi (by simp [stage, LocalStage.queue?]) (by simp [stage, LocalStage.isQueued])
  | @left n gaveUp stage =>
    refine h.of_onQueue hi (by rw [stage]; rfl) rfl fun q hq => ?_
    exact ((h.served n q hq).leave i).congr (fun _ => Iff.rfl) fun j => hleft n gaveUp j _
  | @parted n gaveUp stage =>
    refine h.of_parted hi stage ?_
    cases gaveUp with
    | true => exact .inl rfl
    | false => exact .inr rfl

/-- A sleeper that is dropped leaves the queue next. -/
theorem IsSound.of_cancel (h : s.IsSound) (hi : s.tasks[i]? = some (.waiting w))
    (hstage : w.stage = .sleeping n) :
    (s.setTask i (.waiting { w with stage := .leaving n true }) s.locks).IsSound :=
  h.of_restaged hi (by simp [hstage, LocalStage.queue?]) (by simp [hstage, LocalStage.isQueued])

/-- What freeing a lock does: the slot goes if nobody refers to its queue; otherwise the first of the
queue is woken. -/
theorem unlock_cases {slot : LockSlot} (h : s.IsSound) (hslot : s.locks.slot? path = some slot) :
    ((∀ j, ¬ s.Refers slot.queue j) ∧
        s.locks.unlock path =
          { s.locks with slots := s.locks.slots.filter fun t => t.path != path }) ∨
      s.locks.unlock path = (s.locks.setHeld path false).onQueue slot.queue WakeQueue.wakeOne := by
  cases hused : s.locks.isUsed slot.queue with
  | true =>
    right
    simp only [LocalLocks.unlock, hslot, hused, ↓reduceIte]
  | false =>
    left
    constructor
    · intro j hrefers
      have hq := List.getElem?_eq_getElem (h.placed _ _ hslot)
      have hmem := ((h.served _ _ hq).users j).mpr hrefers
      rw [LocalLocks.isUsed, hq] at hused
      simp only [Option.any_some, Bool.not_eq_false', List.isEmpty_iff] at hused
      rw [hused] at hmem
      cases hmem
    · simp only [LocalLocks.unlock, hslot, hused]
      rfl

/-- The slots after a lock was freed. -/
theorem slot?_unlock {slot : LockSlot} (h : s.IsSound) (hslot : s.locks.slot? path = some slot) :
    (∀ p ≠ path, (s.locks.unlock path).slot? p = s.locks.slot? p) ∧
      ∀ slot', (s.locks.unlock path).slot? path = some slot' → slot'.queue = slot.queue := by
  rcases unlock_cases h hslot with ⟨-, heq⟩ | heq
  · rw [heq]
    simp only [LocalLocks.slot?_remove]
    exact ⟨fun p hp => if_neg hp, fun slot' hnone => by simp at hnone⟩
  · rw [heq]
    simp only [LocalLocks.slot?_onQueue, LocalLocks.slot?_setHeld, hslot]
    refine ⟨fun p hp => if_neg hp, fun slot' hsome => ?_⟩
    simp only [↓reduceIte, Option.map_some, Option.some.injEq] at hsome
    rw [← hsome]

/-- A slot after a lock was freed has the queue that it had. -/
theorem IsSound.slot_of_unlock (h : s.IsSound) {slot slot' : LockSlot}
    (hslot : s.locks.slot? path = some slot) {p : String}
    (hslot' : (s.locks.unlock path).slot? p = some slot') :
    ∃ slot'', s.locks.slot? p = some slot'' ∧ slot''.queue = slot'.queue := by
  obtain ⟨hothers, hsame⟩ := slot?_unlock h hslot
  by_cases hp : p = path
  · subst hp
    exact ⟨slot, hslot, (hsame slot' hslot').symm⟩
  · exact ⟨slot', (hothers p hp).symm.trans hslot', rfl⟩

theorem IsSound.length_unlock (h : s.IsSound) {slot : LockSlot} (hslot : s.locks.slot? path = some slot) :
    (s.locks.unlock path).queues.length = s.locks.queues.length := by
  rcases unlock_cases h hslot with ⟨-, heq⟩ | heq
  · rw [heq]
  · rw [heq, length_onQueue]
    rfl

/-- The queues after a lock was freed. -/
theorem IsSound.served_of_unlock (h : s.IsSound) {slot : LockSlot}
    (hslot : s.locks.slot? path = some slot) {q : WakeQueue}
    (hq : (s.locks.unlock path).queues[n]? = some q) : q.IsSound (s.Refers n) (s.Waits n) := by
  rcases unlock_cases h hslot with ⟨-, heq⟩ | heq
  · rw [heq] at hq
    exact h.served n q hq
  · rw [heq, LocalLocks.getElem?_onQueue] at hq
    split at hq
    · obtain ⟨old, hold, rfl⟩ := Option.map_eq_some_iff.mp hq
      exact (h.served n old hold).wakeOne
    · exact h.served n q hq

/-- The slot of a task that waits stays when a lock is freed. -/
theorem IsSound.current_of_unlock (h : s.IsSound) {slot : LockSlot}
    (hslot : s.locks.slot? path = some slot) (hj : s.tasks[j]? = some (.waiting w))
    (hn : w.stage.queue? = some n) :
    ∃ slot', (s.locks.unlock path).slot? w.path = some slot' ∧ slot'.queue = n := by
  obtain ⟨slot', hslot', hqueue⟩ := h.current j w n hj hn
  by_cases hp : w.path = path
  · rw [hp, hslot] at hslot'
    cases hslot'
    rcases unlock_cases h hslot with ⟨hnobody, -⟩ | heq
    · exact absurd ⟨_, hj, by rw [hqueue]; exact hn⟩ (hnobody j)
    · rw [heq, LocalLocks.slot?_onQueue, LocalLocks.slot?_setHeld, hp, if_pos rfl, hslot]
      exact ⟨_, rfl, hqueue⟩
  · exact ⟨slot', ((slot?_unlock h hslot).1 _ hp).trans hslot', hqueue⟩

/-- A task frees its lock. -/
theorem IsSound.of_unlock (h : s.IsSound) (hi : s.tasks[i]? = some (.holding path)) :
    (s.setTask i .done (s.locks.unlock path)).IsSound := by
  obtain ⟨slot, hslot, -⟩ := LocalLocks.exists_slot_of_isHeld ((h.held path).mpr ⟨i, hi⟩)
  have hother : ∀ p ≠ path, LocalTask.holding path ≠ .holding p := by
    rintro p hp heq
    cases heq
    exact hp rfl
  have hfree : ∀ j : Nat,
      (s.setTask i .done (s.locks.unlock path)).tasks[j]? ≠ some (.holding path) := by
    intro j hj
    rw [getElem?_setTask hi] at hj
    split at hj
    · cases hj
    · rename_i hji
      exact hji (h.single j i path hj hi)
  refine ⟨?_, ?_, ?_, ?_, ?_, ?_⟩
  · intro m q hq
    exact (h.served_of_unlock hslot hq).congr (fun j => (has_setTask_of_iff hi (by simp)).symm)
      fun j => (has_setTask_of_iff hi (by simp)).symm
  · intro p slot' hslot'
    obtain ⟨slot'', hslot'', hn⟩ := h.slot_of_unlock hslot hslot'
    show slot'.queue < (s.locks.unlock path).queues.length
    rw [h.length_unlock hslot, ← hn]
    exact h.placed p slot'' hslot''
  · intro p p' a b ha hb hn
    obtain ⟨a', ha', hna⟩ := h.slot_of_unlock hslot ha
    obtain ⟨b', hb', hnb⟩ := h.slot_of_unlock hslot hb
    exact h.apart p p' a' b' ha' hb' (hna.trans (hn.trans hnb.symm))
  · intro j w m hj hm
    rw [getElem?_setTask hi] at hj
    split at hj
    · cases hj
    · exact h.current_of_unlock hslot hj hm
  · intro p
    by_cases hp : p = path
    · subst hp
      exact iff_of_false (Bool.eq_false_iff.mp (LocalLocks.isHeld_unlock s.locks p))
        fun ⟨j, hj⟩ => hfree j hj
    · exact h.held_elsewhere hi (hother p hp) nofun ((slot?_unlock h hslot).1 p hp)
  · intro j k p hj hk
    by_cases hp : p = path
    · subst hp
      exact absurd hj (hfree j)
    · have hdone : LocalTask.done ≠ .holding p := nofun
      exact h.single j k p ((holding_setTask hi (hother p hp) hdone).mp hj)
        ((holding_setTask hi (hother p hp) hdone).mp hk)

/-- A task that starts changes nothing for the others. -/
theorem getElem?_start {task : LocalTask} {deadline : Nat} :
    (s.act (.start path deadline)).tasks[j]? = some task ↔
      s.tasks[j]? = some task ∨
        (j = s.tasks.length ∧ task = .waiting (.begin_ path deadline)) := by
  show (s.tasks ++ [.waiting (.begin_ path deadline)])[j]? = some task ↔ _
  rw [List.getElem?_append]
  split
  · rename_i hlt
    simp [Nat.ne_of_lt hlt]
  · rename_i hge
    rw [List.getElem?_eq_none (Nat.le_of_not_lt hge), List.getElem?_singleton]
    by_cases hj : j = s.tasks.length
    · simp [hj, eq_comm]
    · have hsub : j - s.tasks.length ≠ 0 := by omega
      simp [hj, hsub]

theorem IsSound.of_start (h : s.IsSound) (path : String) (deadline : Nat) :
    (s.act (.start path deadline)).IsSound := by
  have hhas : ∀ (P : LocalTask → Prop) (j : Nat), ¬ P (.waiting (.begin_ path deadline)) →
      (s.Has j P ↔ (s.act (.start path deadline)).Has j P) := by
    intro P j hP
    constructor
    · rintro ⟨t, ht, hPt⟩
      exact ⟨t, getElem?_start.mpr (.inl ht), hPt⟩
    · rintro ⟨t, ht, hPt⟩
      rcases getElem?_start.mp ht with ht | ⟨-, rfl⟩
      · exact ⟨t, ht, hPt⟩
      · exact absurd hPt hP
  refine ⟨?_, h.placed, h.apart, ?_, ?_, ?_⟩
  · intro m q hq
    refine (h.served m q hq).congr (fun j => hhas _ j ?_) fun j => hhas _ j ?_
    · simp [LocalWait.begin_, LocalStage.queue?]
    · simp [LocalWait.begin_, LocalStage.queue?]
  · intro j w m hj hm
    rcases getElem?_start.mp hj with hj | ⟨-, heq⟩
    · exact h.current j w m hj hm
    · cases heq
      cases hm
  · intro p
    rw [show (s.act (.start path deadline)).locks = s.locks from rfl, h.held p]
    constructor
    · rintro ⟨j, hj⟩
      exact ⟨j, getElem?_start.mpr (.inl hj)⟩
    · rintro ⟨j, hj⟩
      rcases getElem?_start.mp hj with hj | ⟨-, heq⟩
      · exact ⟨j, hj⟩
      · cases heq
  · intro j k p hj hk
    rcases getElem?_start.mp hj with hj | ⟨-, heq⟩
    · rcases getElem?_start.mp hk with hk | ⟨-, heq⟩
      · exact h.single j k p hj hk
      · cases heq
    · cases heq

/-- What an action does: a waiting task moves, a sleeper is dropped, a lock is freed, a task starts,
or nothing but the time changes. -/
inductive Effect (s : LocalScene) : LocalAction → LocalScene → Prop where
  | moved {i : Nat} {w w' : LocalWait} {locks : LocalLocks} (found : s.tasks[i]? = some (.waiting w))
    (move : w.Move i s.now s.locks w' locks) :
    Effect s (.step i) (s.setTask i (.ofWait w') locks)
  | cancelled {i n : Nat} {w : LocalWait} (found : s.tasks[i]? = some (.waiting w))
    (stage : w.stage = .sleeping n) :
    Effect s (.cancel i) (s.setTask i (.waiting { w with stage := .leaving n true }) s.locks)
  | unlocked {i : Nat} {path : String} (found : s.tasks[i]? = some (.holding path)) :
    Effect s (.unlock i) (s.setTask i .done (s.locks.unlock path))
  | started {path : String} {deadline : Nat} :
    Effect s (.start path deadline) (s.act (.start path deadline))
  | idle {x : LocalAction} (now : Nat) : Effect s x { s with now }

theorem effect_act (h : s.IsSound) (x : LocalAction) : Effect s x (s.act x) := by
  cases x with
  | start path deadline => exact .started
  | step i =>
    simp only [act]
    split
    · rename_i w hi
      split
      · rename_i w' locks hstep
        exact .moved hi (LocalWait.move_of_step? (fun n => h.exists_queue hi) hstep)
      · exact .idle s.now
    · exact .idle s.now
  | cancel i =>
    simp only [act]
    split
    · rename_i w hi
      split
      · rename_i n hstage
        exact .cancelled hi hstage
      · exact .idle s.now
    · exact .idle s.now
  | unlock i =>
    simp only [act]
    split
    · rename_i path hi
      exact .unlocked hi
    · exact .idle s.now
  | pass millis => exact .idle (s.now + millis)

/-- Every action leaves the scene sound. -/
theorem isSound_act (h : s.IsSound) (x : LocalAction) : (s.act x).IsSound := by
  have heffect := effect_act h x
  generalize s.act x = s' at heffect ⊢
  cases heffect with
  | moved found move => exact h.of_move found move
  | cancelled found stage => exact h.of_cancel found stage
  | unlocked found => exact h.of_unlock found
  | started => exact h.of_start _ _
  | idle now => exact ⟨h.served, h.placed, h.apart, h.current, h.held, h.single⟩

theorem isSound_empty : empty.IsSound where
  served := by
    intro n q hq
    cases hq
  placed := by
    intro path slot hslot
    cases hslot
  apart := by
    intro path path' slot slot' hslot
    cases hslot
  current := by
    intro i w n hi
    cases hi
  held := by
    intro path
    refine ⟨fun h => (by cases h), ?_⟩
    rintro ⟨i, hi⟩
    cases hi
  single := by
    intro i j path hi
    cases hi

theorem isSound_run (actions : List LocalAction) : (run actions).IsSound := by
  induction actions using List.reverseRecOn with
  | nil => exact isSound_empty
  | append_singleton actions x ih =>
    rw [run_concat]
    exact isSound_act ih x

end LocalScene

end DurableQueue
