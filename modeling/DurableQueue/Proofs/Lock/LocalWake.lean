import DurableQueue.Proofs.Lock.LocalInvariant

/-!
Nobody sleeps by a free lock alone.

A wake-up can come between the moment at which a task finds a lock held and the moment at which it
sleeps, a task that was woken can find that another one was faster, and it can give up though it was
woken. Still, whenever a task sleeps that has not been woken and the lock is free, another task of
the path was woken or is on its way to try (`LocalScene.StrandsNobody`). What a task does reaches its own
path only (`LocalScene.Reaches`), and on that path every action keeps this (`strandsNobody_act`).
-/

namespace DurableQueue.LocalScene

/-- Whether a task sleeps that waits for the lock of a path and has not been woken. -/
def Sleeps (s : LocalScene) (i : Nat) (path : String) : Prop :=
  ∃ w n, s.tasks[i]? = some (.waiting w) ∧ w.path = path ∧ w.stage = .sleeping n ∧
    s.locks.isWoken n i = false

/-- Whether a task that waits for the lock of a path was woken. -/
def IsWoken (s : LocalScene) (i : Nat) (path : String) : Prop :=
  ∃ w n, s.tasks[i]? = some (.waiting w) ∧ w.path = path ∧ w.stage.queue? = some n ∧
    s.locks.isWoken n i = true

/-- Whether a task that waits for the lock of a path is on its way to try, whatever others do. -/
def IsBusy (s : LocalScene) (i : Nat) (path : String) : Prop :=
  ∃ w, s.tasks[i]? = some (.waiting w) ∧ w.path = path ∧ w.stage.isBusy = true

/-- Whether whoever sleeps by a free lock is not alone. -/
def StrandsNobody (s : LocalScene) : Prop :=
  ∀ i path, s.Sleeps i path → s.locks.isHeld path = false → ∃ j, s.IsWoken j path ∨ s.IsBusy j path

variable {s s' : LocalScene} {i j n : Nat} {t' : LocalTask} {locks : LocalLocks} {w : LocalWait}
  {path : String}

theorem not_isWoken_of_sleeps (h : s.Sleeps i path) : ¬ s.IsWoken i path := by
  rintro ⟨w, n, hi, -, hn, hwoken⟩
  obtain ⟨w', m, hi', -, hstage, hnot⟩ := h
  rw [hi] at hi'
  cases hi'
  rw [hstage] at hn
  cases hn
  rw [hwoken] at hnot
  cases hnot

theorem not_isBusy_of_sleeps (h : s.Sleeps i path) : ¬ s.IsBusy i path := by
  rintro ⟨w, hi, -, hbusy⟩
  obtain ⟨w', m, hi', -, hstage, -⟩ := h
  rw [hi] at hi'
  cases hi'
  rw [hstage] at hbusy
  cases hbusy

/-- Only who has its place in a queue is woken there. -/
theorem IsSound.isQueued_of_isWoken (h : s.IsSound) (hi : s.tasks[i]? = some (.waiting w))
    (hwoken : s.locks.isWoken n i = true) : w.stage.queue? = some n ∧ w.stage.isQueued = true := by
  obtain ⟨q, hq, hmem⟩ := LocalLocks.isWoken_iff.mp hwoken
  exact (waits_iff hi).mp (((h.served n q hq).queued i).mp (.inr hmem))

/-- Whoever has its place in the queue of a path waits for the lock of that path. -/
theorem IsSound.path_of_waits (h : s.IsSound) {slot : LockSlot}
    (hslot : s.locks.slot? path = some slot) (hwaits : s.Waits slot.queue i) :
    ∃ w, s.tasks[i]? = some (.waiting w) ∧ w.path = path ∧ w.stage.queue? = some slot.queue := by
  obtain ⟨t, ht, hn, -⟩ := hwaits
  cases t with
  | waiting w =>
    obtain ⟨slot', hslot', hqueue⟩ := h.current i w _ ht hn
    exact ⟨w, ht, h.apart _ _ _ _ hslot' hslot hqueue, hn⟩
  | holding p => cases hn
  | done => cases hn

/-- How far what a task does reaches: not beyond its own path and the queue of that path. -/
structure Reaches (s s' : LocalScene) (i : Nat) (path : String) : Prop where
  tasks : ∀ j ≠ i, s'.tasks[j]? = s.tasks[j]?
  own : ∀ w, s.tasks[i]? = some (.waiting w) → w.path = path
  own' : ∀ w, s'.tasks[i]? = some (.waiting w) → w.path = path
  slots : ∀ p ≠ path, s'.locks.slot? p = s.locks.slot? p
  queues : ∀ (m : Nat) (q : WakeQueue), s.locks.queues[m]? = some q →
    (∀ slot, s.locks.slot? path = some slot → slot.queue ≠ m) → s'.locks.queues[m]? = some q

namespace Reaches

/-- Whether a task of another path was woken stays as it was. -/
theorem isWoken_eq (hr : Reaches s s' i path) (h : s.IsSound) (hj : s.tasks[j]? = some (.waiting w))
    (hn : w.stage.queue? = some n) (hpath : w.path ≠ path) :
    s'.locks.isWoken n j = s.locks.isWoken n j := by
  obtain ⟨slot, hslot, hqueue⟩ := h.current j w n hj hn
  obtain ⟨q, hq⟩ := h.exists_queue hj hn
  have hq' := hr.queues n q hq fun slot' hslot' heq =>
    hpath (h.apart _ _ _ _ hslot hslot' (hqueue.trans heq.symm))
  rw [LocalLocks.isWoken, LocalLocks.isWoken, hq, hq']

theorem strandsNobody (hr : Reaches s s' i path) (h : s.IsSound) (hs : s.StrandsNobody)
    (hlocal : ∀ k, s'.Sleeps k path → s'.locks.isHeld path = false →
      ∃ j, s'.IsWoken j path ∨ s'.IsBusy j path) : s'.StrandsNobody := by
  intro k p hsleeps hfree
  by_cases hp : p = path
  · subst hp
    exact hlocal k hsleeps hfree
  · -- whoever is concerned with another path is not touched
    have hsame : ∀ (m : Nat) (v : LocalWait), v.path = p →
        (s'.tasks[m]? = some (.waiting v) ↔ s.tasks[m]? = some (.waiting v)) := by
      intro m v hv
      by_cases hm : m = i
      · subst hm
        exact ⟨fun hv' => absurd (hv.symm.trans (hr.own' v hv')) hp,
          fun hv' => absurd (hv.symm.trans (hr.own v hv')) hp⟩
      · rw [hr.tasks m hm]
    obtain ⟨v, m, hk, hv, hstage, hnot⟩ := hsleeps
    have hk' := (hsame k v hv).mp hk
    rw [LocalLocks.isHeld, hr.slots p hp] at hfree
    rw [hr.isWoken_eq h hk' (by rw [hstage]; rfl) (by rw [hv]; exact hp)] at hnot
    obtain ⟨j, ⟨u, m', hj, hu, hn, hwoken⟩ | ⟨u, hj, hu, hbusy⟩⟩ :=
      hs k p ⟨v, m, hk', hv, hstage, hnot⟩ hfree
    · refine ⟨j, .inl ⟨u, m', (hsame j u hu).mpr hj, hu, hn, ?_⟩⟩
      rw [hr.isWoken_eq h hj hn (by rw [hu]; exact hp)]
      exact hwoken
    · exact ⟨j, .inr ⟨u, (hsame j u hu).mpr hj, hu, hbusy⟩⟩

end Reaches

/-- A step of a waiting task reaches its own path. -/
theorem reaches_of_move {now : Nat} {w' : LocalWait} (h : s.IsSound)
    (hi : s.tasks[i]? = some (.waiting w)) (hm : w.Move i now s.locks w' locks) :
    Reaches s (s.setTask i (.ofWait w') locks) i w.path := by
  refine ⟨?_, ?_, ?_, ?_, ?_⟩
  · intro j hj
    rw [getElem?_setTask hi, if_neg hj]
  · intro v hv
    rw [hi] at hv
    cases hv
    rfl
  · intro v hv
    rw [getElem?_setTask hi, if_pos rfl] at hv
    have hpath : v = w' := by
      unfold LocalTask.ofWait at hv
      split at hv
      · cases hv
      · cases hv
      · cases hv
        rfl
    rw [hpath, hm.path_eq]
  · intro p hp
    cases hm with
    | took stage free taken => exact taken.others p hp
    | _ => rfl
  · intro m q hq hother
    have helse : ∀ (k : Nat) (f : WakeQueue → WakeQueue), (∃ slot, s.locks.slot? w.path = some slot ∧
        slot.queue = k) → (s.locks.onQueue k f).queues[m]? = some q := by
      rintro k f ⟨slot, hslot, rfl⟩
      rw [LocalLocks.getElem?_onQueue, if_neg (hother slot hslot)]
      exact hq
    have hqueue : ∀ k, w.stage.queue? = some k → ∃ slot, s.locks.slot? w.path = some slot ∧
        slot.queue = k := fun k => h.current i w k hi
    cases hm with
    | took stage free taken =>
      show locks.queues[m]? = some q
      cases hs : s.locks.slot? w.path with
      | none =>
        rw [(taken.added hs).2, List.getElem?_append_left (List.getElem?_eq_some_iff.mp hq).1]
        exact hq
      | some slot =>
        rw [(taken.kept slot hs).2]
        exact hq
    | @entered slot stage hslot held => exact helse _ _ ⟨slot, hslot, rfl⟩
    | joined stage queue => exact helse _ _ (hqueue _ (by rw [stage]; rfl))
    | woke stage woken => exact helse _ _ (hqueue _ (by rw [stage]; rfl))
    | left stage => exact helse _ _ (hqueue _ (by rw [stage]; rfl))
    | parted stage => exact helse _ _ (hqueue _ (by rw [stage]; rfl))
    | spared stage => exact hq
    | slept stage held => exact hq
    | stayed stage free => exact hq
    | gaveUp stage due => exact hq

/-- Whoever was in the queue of a path and is woken in it now was woken for that path. -/
theorem isWoken_of_mem {slot : LockSlot} {q q' : WakeQueue} (h : s.IsSound)
    (hslot : s.locks.slot? path = some slot) (hq : s.locks.queues[slot.queue]? = some q)
    (hj : j ∈ q.waiting) (htask : s'.tasks[j]? = s.tasks[j]?)
    (hq' : s'.locks.queues[slot.queue]? = some q') (hj' : j ∈ q'.woken) : s'.IsWoken j path := by
  obtain ⟨v, hv, hpath, hn⟩ := h.path_of_waits hslot (((h.served _ q hq).queued j).mp (.inl hj))
  exact ⟨v, slot.queue, htask.trans hv, hpath, hn, LocalLocks.isWoken_iff.mpr ⟨q', hq', hj'⟩⟩

/-- Whoever sleeps on, not woken, was in the queue. -/
theorem mem_waiting_of_sleeps {slot : LockSlot} {q q' : WakeQueue} (h : s.IsSound)
    (hslot : s.locks.slot? path = some slot) (hq : s.locks.queues[slot.queue]? = some q)
    (htask : s'.tasks[j]? = s.tasks[j]?) (hq' : s'.locks.queues[slot.queue]? = some q')
    (hwoken : j ∈ q.woken → j ∈ q'.woken) (hsleeps : s'.Sleeps j path) : j ∈ q.waiting := by
  obtain ⟨v, m, hv, rfl, hstage, hnot⟩ := hsleeps
  rw [htask] at hv
  have hm : v.stage.queue? = some m := by rw [hstage]; rfl
  obtain ⟨slot', hslot', rfl⟩ := h.current j v m hv hm
  rw [hslot] at hslot'
  cases hslot'
  have hwaits : s.Waits slot.queue j := (waits_iff hv).mpr ⟨hm, by rw [hstage]; rfl⟩
  rcases ((h.served _ q hq).queued j).mpr hwaits with hmem | hmem
  · exact hmem
  · rw [LocalLocks.isWoken_iff.mpr ⟨q', hq', hwoken hmem⟩] at hnot
    cases hnot

/-- A task that was neither woken nor on its way does not matter to the others, nor does one that
stays so. -/
theorem rescued_of_bystander (hs : s.StrandsNobody) (htasks : ∀ j ≠ i, s'.tasks[j]? = s.tasks[j]?)
    (hwoken : ∀ n j, s'.locks.isWoken n j = s.locks.isWoken n j)
    (hheld : s'.locks.isHeld path = s.locks.isHeld path) (hawake : ¬ s'.Sleeps i path)
    (hstays : s.IsWoken i path ∨ s.IsBusy i path → s'.IsWoken i path ∨ s'.IsBusy i path) (k : Nat)
    (hsleeps : s'.Sleeps k path) (hfree : s'.locks.isHeld path = false) :
    ∃ j, s'.IsWoken j path ∨ s'.IsBusy j path := by
  have hk : k ≠ i := fun heq => hawake (heq ▸ hsleeps)
  obtain ⟨v, m, hv, hpath, hstage, hnot⟩ := hsleeps
  rw [htasks k hk] at hv
  rw [hwoken] at hnot
  rw [hheld] at hfree
  obtain ⟨j, hj⟩ := hs k path ⟨v, m, hv, hpath, hstage, hnot⟩ hfree
  by_cases hji : j = i
  · subst hji
    exact ⟨j, hstays hj⟩
  · refine ⟨j, ?_⟩
    rcases hj with ⟨u, m', hu, hpath', hn, hw⟩ | ⟨u, hu, hpath', hbusy⟩
    · exact .inl ⟨u, m', (htasks j hji).trans hu, hpath', hn, (hwoken m' j).trans hw⟩
    · exact .inr ⟨u, (htasks j hji).trans hu, hpath', hbusy⟩

section

variable (h : s.IsSound) (hi : s.tasks[i]? = some (.waiting w))

include hi

theorem getElem?_setTask_self : (s.setTask i t' locks).tasks[i]? = some t' := by
  rw [getElem?_setTask hi, if_pos rfl]

theorem getElem?_setTask_ne (hj : j ≠ i) : (s.setTask i t' locks).tasks[j]? = s.tasks[j]? := by
  rw [getElem?_setTask hi, if_neg hj]

/-- Whoever is busy after its step is there for all others. -/
theorem rescued_of_busy {v : LocalWait} (hpath : v.path = w.path) (hbusy : v.stage.isBusy = true) :
    ∃ j, (s.setTask i (.waiting v) locks).IsWoken j w.path ∨
      (s.setTask i (.waiting v) locks).IsBusy j w.path :=
  ⟨i, .inr ⟨v, getElem?_setTask_self hi, hpath, hbusy⟩⟩

theorem not_sleeps_of_stage {v : LocalWait} (hv : ∀ m, v.stage ≠ .sleeping m) :
    ¬ (s.setTask i (.waiting v) locks).Sleeps i path := by
  rintro ⟨u, m, hu, -, hstage, -⟩
  rw [getElem?_setTask_self hi] at hu
  cases hu
  exact hv m hstage

/-- A sleeper that gives up hands on, in time, whatever woke it. -/
theorem rescued_of_giving_up (hs : s.StrandsNobody) (hstage : w.stage = .sleeping n) (k : Nat)
    (hsleeps : (s.setTask i (.waiting { w with stage := .leaving n true }) s.locks).Sleeps k w.path)
    (hfree : s.locks.isHeld w.path = false) :
    ∃ j, (s.setTask i (.waiting { w with stage := .leaving n true }) s.locks).IsWoken j w.path ∨
      (s.setTask i (.waiting { w with stage := .leaving n true }) s.locks).IsBusy j w.path := by
  refine rescued_of_bystander hs (fun j hj => getElem?_setTask_ne hi hj) (fun _ _ => rfl) rfl
    (not_sleeps_of_stage hi (by simp)) ?_ k hsleeps hfree
  rintro (⟨u, m, hu, hpath, hm, hwoken⟩ | ⟨u, hu, -, hbusy⟩)
  · rw [hi] at hu
    cases hu
    rw [hstage] at hm
    cases hm
    exact .inl ⟨_, n, getElem?_setTask_self hi, rfl, rfl, hwoken⟩
  · rw [hi] at hu
    cases hu
    rw [hstage] at hbusy
    cases hbusy

include h

/-- Whoever was woken and leaves hands the wake-up on to a sleeper, if there is one. -/
theorem isWoken_of_left {gaveUp : Bool} (hstage : w.stage = .leaving n gaveUp)
    (hwoken : s.locks.isWoken n i = true) {k : Nat}
    (hsleeps : (s.setTask i t' (s.locks.onQueue n fun q => q.leave i)).Sleeps k w.path) (hk : k ≠ i) :
    ∃ j, (s.setTask i t' (s.locks.onQueue n fun q => q.leave i)).IsWoken j w.path := by
  obtain ⟨slot, hslot, rfl⟩ := h.current i w n hi (by rw [hstage]; rfl)
  obtain ⟨q, hq, hmem⟩ := LocalLocks.isWoken_iff.mp hwoken
  have hq' : (s.locks.onQueue slot.queue fun q => q.leave i).queues[slot.queue]? = some (q.leave i) := by
    rw [LocalLocks.getElem?_onQueue, if_pos rfl, hq]
    rfl
  have hwaiting := mem_waiting_of_sleeps h hslot hq (getElem?_setTask_ne hi hk) hq'
    (fun hkw => WakeQueue.mem_woken_leave hkw hk) hsleeps
  obtain ⟨j, hj, hj'⟩ := WakeQueue.exists_woken_leave hmem hwaiting
  have hji : j ≠ i := by
    rintro rfl
    exact (h.served _ q hq).not_mem_waiting hmem hj
  exact ⟨j, isWoken_of_mem h hslot hq hj (getElem?_setTask_ne hi hji) hq' hj'⟩

/-- Whoever gave up leaves nobody alone when it leaves the queue. -/
theorem rescued_of_left (hs : s.StrandsNobody) (hstage : w.stage = .leaving n true) (k : Nat)
    (hsleeps : (s.setTask i (.waiting { w with stage := .parting n true })
      (s.locks.onQueue n fun q => q.leave i)).Sleeps k w.path)
    (hfree : s.locks.isHeld w.path = false) :
    ∃ j, (s.setTask i (.waiting { w with stage := .parting n true })
        (s.locks.onQueue n fun q => q.leave i)).IsWoken j w.path ∨
      (s.setTask i (.waiting { w with stage := .parting n true })
        (s.locks.onQueue n fun q => q.leave i)).IsBusy j w.path := by
  have hawake : ¬ (s.setTask i (.waiting { w with stage := .parting n true })
      (s.locks.onQueue n fun q => q.leave i)).Sleeps i w.path := not_sleeps_of_stage hi (by simp)
  cases hwoken : s.locks.isWoken n i with
  | true =>
    obtain ⟨j, hj⟩ := isWoken_of_left h hi hstage hwoken hsleeps fun heq => hawake (heq ▸ hsleeps)
    exact ⟨j, .inl hj⟩
  | false =>
    refine rescued_of_bystander hs (fun j hj => getElem?_setTask_ne hi hj) ?_ rfl hawake ?_ k hsleeps hfree
    · intro m j
      show (s.locks.onQueue n fun q => q.leave i).isWoken m j = s.locks.isWoken m j
      rw [LocalLocks.isWoken, LocalLocks.isWoken, LocalLocks.getElem?_onQueue]
      split
      · rename_i hm
        subst hm
        cases hq : s.locks.queues[n]? with
        | none => rfl
        | some q =>
          have hnot : i ∉ q.woken := by
            intro hmem
            rw [LocalLocks.isWoken_iff.mpr ⟨q, hq, hmem⟩] at hwoken
            cases hwoken
          rw [Option.map_some, WakeQueue.leave_of_not_woken hnot]
          rfl
      · rfl
    · rintro (⟨u, m, hu, -, hm, hw⟩ | ⟨u, hu, -, hbusy⟩)
      · rw [hi] at hu
        cases hu
        rw [hstage] at hm
        cases hm
        rw [hwoken] at hw
        cases hw
      · rw [hi] at hu
        cases hu
        rw [hstage] at hbusy
        cases hbusy

/-- Whoever gave up and has left the queue leaves nobody alone. -/
theorem rescued_of_parted (hs : s.StrandsNobody) (hstage : w.stage = .parting n true) (k : Nat)
    (hsleeps : (s.setTask i .done (s.locks.onQueue n fun q => q.part i)).Sleeps k w.path)
    (hfree : s.locks.isHeld w.path = false) :
    ∃ j, (s.setTask i .done (s.locks.onQueue n fun q => q.part i)).IsWoken j w.path ∨
      (s.setTask i .done (s.locks.onQueue n fun q => q.part i)).IsBusy j w.path := by
  refine rescued_of_bystander hs (fun j hj => getElem?_setTask_ne hi hj) ?_ rfl ?_ ?_ k hsleeps hfree
  · intro m j
    show (s.locks.onQueue n fun q => q.part i).isWoken m j = s.locks.isWoken m j
    rw [LocalLocks.isWoken, LocalLocks.isWoken, LocalLocks.getElem?_onQueue]
    split
    · cases s.locks.queues[m]? <;> rfl
    · rfl
  · rintro ⟨u, m, hu, -⟩
    rw [getElem?_setTask_self hi] at hu
    cases hu
  · rintro (⟨u, m, hu, -, -, hw⟩ | ⟨u, hu, -, hbusy⟩)
    · rw [hi] at hu
      cases hu
      obtain ⟨-, hqueued⟩ := h.isQueued_of_isWoken hi hw
      rw [hstage] at hqueued
      cases hqueued
    · rw [hi] at hu
      cases hu
      rw [hstage] at hbusy
      cases hbusy

/-- A step of a waiting task strands nobody. -/
theorem strandsNobody_of_move {now : Nat} {w' : LocalWait} (hs : s.StrandsNobody)
    (hm : w.Move i now s.locks w' locks) : (s.setTask i (.ofWait w') locks).StrandsNobody := by
  refine (reaches_of_move h hi hm).strandsNobody h hs fun k hsleeps hfree => ?_
  cases hm with
  | took stage free taken =>
    have hheld : locks.isHeld w.path = false := hfree
    rw [taken.held] at hheld
    cases hheld
  | entered stage hslot held => exact rescued_of_busy hi rfl rfl
  | joined stage queue => exact rescued_of_busy hi rfl rfl
  | spared stage => exact rescued_of_busy hi rfl rfl
  | slept stage held =>
    have hheld : s.locks.isHeld w.path = false := hfree
    rw [held] at hheld
    cases hheld
  | stayed stage free => exact rescued_of_busy hi rfl rfl
  | woke stage woken => exact rescued_of_busy hi rfl rfl
  | gaveUp stage due => exact rescued_of_giving_up hi hs stage k hsleeps hfree
  | @left n gaveUp stage =>
    cases gaveUp with
    | true => exact rescued_of_left h hi hs stage k hsleeps hfree
    | false => exact rescued_of_busy hi rfl rfl
  | @parted n gaveUp stage =>
    cases gaveUp with
    | true => exact rescued_of_parted h hi hs stage k hsleeps hfree
    | false => exact rescued_of_busy hi rfl rfl

/-- A sleeper that is dropped strands nobody. -/
theorem strandsNobody_of_cancel (hs : s.StrandsNobody) (hstage : w.stage = .sleeping n) :
    (s.setTask i (.waiting { w with stage := .leaving n true }) s.locks).StrandsNobody := by
  have hreaches : Reaches s (s.setTask i (.waiting { w with stage := .leaving n true }) s.locks) i
      w.path := by
    refine ⟨fun j hj => getElem?_setTask_ne hi hj, ?_, ?_, fun p hp => rfl, fun m q hq _ => hq⟩
    · intro v hv
      rw [hi] at hv
      cases hv
      rfl
    · intro v hv
      rw [getElem?_setTask_self hi] at hv
      cases hv
      rfl
  exact hreaches.strandsNobody h hs fun k hsleeps hfree =>
    rescued_of_giving_up hi hs hstage k hsleeps hfree

end

/-- Who frees a lock strands nobody. -/
theorem strandsNobody_of_unlock (h : s.IsSound) (hs : s.StrandsNobody)
    (hi : s.tasks[i]? = some (.holding path)) :
    (s.setTask i .done (s.locks.unlock path)).StrandsNobody := by
  obtain ⟨slot, hslot, -⟩ := LocalLocks.exists_slot_of_isHeld ((h.held path).mpr ⟨i, hi⟩)
  have hne : ∀ j ≠ i, (s.setTask i .done (s.locks.unlock path)).tasks[j]? = s.tasks[j]? := by
    intro j hj
    rw [getElem?_setTask hi, if_neg hj]
  have hself : (s.setTask i .done (s.locks.unlock path)).tasks[i]? = some .done := by
    rw [getElem?_setTask hi, if_pos rfl]
  have hreaches : Reaches s (s.setTask i .done (s.locks.unlock path)) i path := by
    refine ⟨hne, ?_, ?_, (slot?_unlock h hslot).1, ?_⟩
    · intro v hv
      rw [hi] at hv
      cases hv
    · intro v hv
      rw [hself] at hv
      cases hv
    · intro m q hq hother
      show (s.locks.unlock path).queues[m]? = some q
      rcases unlock_cases h hslot with ⟨-, heq⟩ | heq
      · rw [heq]
        exact hq
      · rw [heq, LocalLocks.getElem?_onQueue, if_neg (hother slot hslot)]
        exact hq
  refine hreaches.strandsNobody h hs fun k hsleeps _ => ?_
  have hk : k ≠ i := by
    rintro rfl
    obtain ⟨v, m, hv, -⟩ := hsleeps
    rw [hself] at hv
    cases hv
  rcases unlock_cases h hslot with ⟨hnobody, -⟩ | heq
  · -- the slot would not have gone with a sleeper in its queue
    obtain ⟨v, m, hv, rfl, hstage, -⟩ := hsleeps
    rw [hne k hk] at hv
    have hm : v.stage.queue? = some m := by rw [hstage]; rfl
    obtain ⟨slot', hslot', rfl⟩ := h.current k v m hv hm
    rw [hslot] at hslot'
    cases hslot'
    exact absurd ((refers_iff hv).mpr hm) (hnobody k)
  · obtain ⟨q, hq⟩ : ∃ q, s.locks.queues[slot.queue]? = some q :=
      ⟨_, List.getElem?_eq_getElem (h.placed _ _ hslot)⟩
    have hq' : (s.locks.unlock path).queues[slot.queue]? = some q.wakeOne := by
      rw [heq, LocalLocks.getElem?_onQueue, if_pos rfl, LocalLocks.queues_setHeld, hq]
      rfl
    have hwaiting := mem_waiting_of_sleeps h hslot hq (hne k hk) hq' WakeQueue.mem_woken_wakeOne hsleeps
    obtain ⟨j, hj, hj'⟩ := WakeQueue.exists_woken_wakeOne hwaiting
    have hji : j ≠ i := by
      rintro rfl
      obtain ⟨v, hv, -⟩ := h.path_of_waits hslot (((h.served _ _ hq).queued j).mp (.inl hj))
      rw [hi] at hv
      cases hv
    exact ⟨j, .inl (isWoken_of_mem h hslot hq hj (hne j hji) hq' hj')⟩

/-- A task that starts strands nobody. -/
theorem strandsNobody_of_start (hs : s.StrandsNobody) (path : String) (deadline : Nat) :
    (s.act (.start path deadline)).StrandsNobody := by
  rintro k p ⟨v, m, hv, hpath, hstage, hnot⟩ hfree
  rcases getElem?_start.mp hv with hv | ⟨-, heq⟩
  · obtain ⟨j, ⟨u, m', hu, hpath', hn, hw⟩ | ⟨u, hu, hpath', hbusy⟩⟩ :=
      hs k p ⟨v, m, hv, hpath, hstage, hnot⟩ hfree
    · exact ⟨j, .inl ⟨u, m', getElem?_start.mpr (.inl hu), hpath', hn, hw⟩⟩
    · exact ⟨j, .inr ⟨u, getElem?_start.mpr (.inl hu), hpath', hbusy⟩⟩
  · cases heq
    cases hstage

/-- No action strands anybody. -/
theorem strandsNobody_act (h : s.IsSound) (hs : s.StrandsNobody) (x : LocalAction) :
    (s.act x).StrandsNobody := by
  have heffect := effect_act h x
  generalize s.act x = s' at heffect ⊢
  cases heffect with
  | moved found move => exact strandsNobody_of_move h found hs move
  | cancelled found stage => exact strandsNobody_of_cancel h found hs stage
  | unlocked found => exact strandsNobody_of_unlock h hs found
  | started => exact strandsNobody_of_start hs _ _
  | idle now => exact hs

theorem strandsNobody_run (actions : List LocalAction) : (run actions).StrandsNobody := by
  induction actions using List.reverseRecOn with
  | nil =>
    rintro i path ⟨w, n, hi, -⟩
    cases hi
  | append_singleton actions x ih =>
    rw [run_concat]
    exact strandsNobody_act (isSound_run actions) ih x

end DurableQueue.LocalScene
