import DurableQueue.Proofs.Lock.LocalWake

/-!
What becomes of a free lock of a process.

Nobody falls asleep by a lock that is free (`held_of_fallen_asleep`). Whoever is on its way to try,
or was woken in its sleep, takes the lock within five steps of its own if nobody is faster
(`takes_of_headed`). `locks_exclude_and_wake` puts this together with the exclusion of holders and with
the wake-ups that are not lost.
-/

namespace DurableQueue

/-- How many steps are left until a caller tries again. -/
def LocalStage.toTry : LocalStage → Nat
  | trying | .over _ => 0
  | parting _ _ => 1
  | leaving _ _ | sleeping _ | checking _ true => 2
  | checking _ false => 3
  | joining _ => 4

namespace LocalScene

variable {s : LocalScene} {i j n : Nat} {w w' : LocalWait} {locks : LocalLocks} {path : String}

/-- Whether a task is on its way to try to take a lock: it is busy, or woken in its sleep. -/
def IsHeaded (s : LocalScene) (i : Nat) (path : String) : Prop :=
  ∃ w, s.tasks[i]? = some (.waiting w) ∧ w.path = path ∧
    (w.stage.isBusy = true ∨ ∃ n, w.stage = .sleeping n ∧ s.locks.isWoken n i = true)

theorem act_step (hi : s.tasks[i]? = some (.waiting w))
    (hstep : w.step? i s.now s.locks = some (w', locks)) :
    s.act (.step i) = s.setTask i (.ofWait w') locks := by
  simp only [act, hi, hstep]

/-- A task falls asleep only by a lock that is held. -/
theorem held_of_fallen_asleep (h : s.IsSound) {x : LocalAction}
    (hnew : (s.act x).tasks[i]? = some (.waiting w)) (hstage : w.stage = .sleeping n)
    (hold : s.tasks[i]? ≠ some (.waiting w)) :
    s.locks.isHeld w.path = true ∧ (s.act x).locks.isHeld w.path = true := by
  have heffect := effect_act h x
  generalize s.act x = s' at heffect hnew ⊢
  cases heffect with
  | @moved j v v' locks found move =>
    rw [getElem?_setTask found] at hnew
    split at hnew
    · have hw : LocalTask.ofWait v' = .waiting w := Option.some.inj hnew
      cases move with
      | slept stage held =>
        cases hw
        exact ⟨held, held⟩
      | took stage free taken => cases hw
      | @parted m gaveUp stage =>
        cases gaveUp with
        | true => cases hw
        | false =>
          cases hw
          cases hstage
      | _ =>
        cases hw
        cases hstage
    · exact absurd hnew hold
  | @cancelled j m v found stage =>
    rw [getElem?_setTask found] at hnew
    split at hnew
    · cases hnew
      cases hstage
    · exact absurd hnew hold
  | @unlocked j p found =>
    rw [getElem?_setTask found] at hnew
    split at hnew
    · cases hnew
    · exact absurd hnew hold
  | @started p deadline =>
    rcases getElem?_start.mp hnew with hnew | ⟨-, heq⟩
    · exact absurd hnew hold
    · cases heq
      cases hstage
  | idle now => exact absurd hnew hold

/-- A task that is about to try takes a free lock. -/
theorem takes_of_trying (hi : s.tasks[i]? = some (.waiting w)) (hstage : w.stage = .trying)
    (hfree : s.locks.isHeld w.path = false) :
    (s.act (.step i)).tasks[i]? = some (.holding w.path) := by
  obtain ⟨locks, htake, -⟩ := LocalLocks.tryAcquire_of_free hfree i
  have hstep : w.step? i s.now s.locks = some ({ w with stage := .over true }, locks) := by
    simp only [LocalWait.step?, hstage, htake]
  rw [act_step hi hstep, getElem?_setTask hi, if_pos rfl]
  rfl

/-- A task that is on its way to a free lock comes nearer with each step of its own. -/
theorem nearer_of_headed (h : s.IsSound) (hi : s.tasks[i]? = some (.waiting w))
    (hheaded : w.stage.isBusy = true ∨ ∃ n, w.stage = .sleeping n ∧ s.locks.isWoken n i = true)
    (hnot : w.stage ≠ .trying) (hfree : s.locks.isHeld w.path = false) :
    ∃ w', (s.act (.step i)).tasks[i]? = some (.waiting w') ∧ w'.path = w.path ∧
      w'.stage.isBusy = true ∧ w'.stage.toTry < w.stage.toTry ∧
      (s.act (.step i)).locks.isHeld w.path = false := by
  have hnear : ∀ (w' : LocalWait) (locks : LocalLocks), w.step? i s.now s.locks = some (w', locks) →
      LocalTask.ofWait w' = .waiting w' → w'.path = w.path → w'.stage.isBusy = true →
      w'.stage.toTry < w.stage.toTry → locks.isHeld w.path = false →
      ∃ w', (s.act (.step i)).tasks[i]? = some (.waiting w') ∧ w'.path = w.path ∧
        w'.stage.isBusy = true ∧ w'.stage.toTry < w.stage.toTry ∧
        (s.act (.step i)).locks.isHeld w.path = false := by
    intro w' locks hstep hwait hpath hbusy hlt hheld
    rw [act_step hi hstep, getElem?_setTask hi, if_pos rfl, hwait]
    exact ⟨w', rfl, hpath, hbusy, hlt, hheld⟩
  cases hstage : w.stage with
  | trying => exact absurd hstage hnot
  | joining m =>
    obtain ⟨q, hq⟩ := h.exists_queue hi (by rw [hstage]; rfl)
    rw [hstage] at hnear
    refine hnear { w with stage := .checking m (q.join i).1 }
      (s.locks.onQueue m fun q => (q.join i).2) ?_ rfl rfl rfl ?_ hfree
    · simp only [LocalWait.step?, hstage, LocalLocks.join, hq]
    · cases (q.join i).1 <;> simp [LocalStage.toTry]
  | checking m wasKept =>
    rw [hstage] at hnear
    cases wasKept with
    | true =>
      refine hnear { w with stage := .parting m false } s.locks ?_ rfl rfl rfl (by simp [LocalStage.toTry]) hfree
      simp only [LocalWait.step?, hstage]
    | false =>
      refine hnear { w with stage := .leaving m false } s.locks ?_ rfl rfl rfl (by simp [LocalStage.toTry]) hfree
      simp only [LocalWait.step?, hstage, hfree]
      rfl
  | sleeping m =>
    rw [hstage] at hnear hheaded
    obtain ⟨m', heq, hwoken⟩ := hheaded.resolve_left (by simp [LocalStage.isBusy])
    cases heq
    refine hnear { w with stage := .parting m false } (s.locks.onQueue m fun q => q.goOn i) ?_ rfl rfl
      rfl (by simp [LocalStage.toTry]) hfree
    simp only [LocalWait.step?, hstage, hwoken, ↓reduceIte]
  | leaving m gaveUp =>
    rw [hstage] at hnear hheaded
    cases gaveUp with
    | true =>
      rcases hheaded with hbusy | ⟨m', heq, -⟩
      · cases hbusy
      · cases heq
    | false =>
      refine hnear { w with stage := .parting m false } (s.locks.onQueue m fun q => q.leave i) ?_ rfl
        rfl rfl (by simp [LocalStage.toTry]) hfree
      simp only [LocalWait.step?, hstage]
  | parting m gaveUp =>
    rw [hstage] at hnear hheaded
    cases gaveUp with
    | true =>
      rcases hheaded with hbusy | ⟨m', heq, -⟩
      · cases hbusy
      · cases heq
    | false =>
      refine hnear { w with stage := .trying } (s.locks.onQueue m fun q => q.part i) ?_ rfl rfl rfl
        (by simp [LocalStage.toTry]) hfree
      simp only [LocalWait.step?, hstage]
      rfl
  | «over» isAcquired =>
    rw [hstage] at hheaded
    rcases hheaded with hbusy | ⟨m', heq, -⟩
    · cases hbusy
    · cases heq

theorem toTry_le (stage : LocalStage) : stage.toTry ≤ 4 := by
  cases stage with
  | checking n wasKept => cases wasKept <;> simp [LocalStage.toTry]
  | _ => simp [LocalStage.toTry]

/-- Whoever is on its way takes a free lock with few steps of its own, if nobody is faster. -/
theorem takes_of_headed (h : s.IsSound) (hheaded : s.IsHeaded i path)
    (hfree : s.locks.isHeld path = false) :
    ∃ k ≤ 5, ((List.replicate k (.step i)).foldl act s).tasks[i]? = some (.holding path) := by
  obtain ⟨w, hi, rfl, hw⟩ := hheaded
  suffices hmain : ∀ (d : Nat) (s : LocalScene) (w : LocalWait), s.IsSound →
      s.tasks[i]? = some (.waiting w) →
      (w.stage.isBusy = true ∨ ∃ n, w.stage = .sleeping n ∧ s.locks.isWoken n i = true) →
      s.locks.isHeld w.path = false → w.stage.toTry ≤ d →
      ∃ k ≤ d + 1, ((List.replicate k (.step i)).foldl act s).tasks[i]? = some (.holding w.path) from
    hmain 4 s w h hi hw hfree (toTry_le _)
  intro d
  induction d with
  | zero =>
    intro s w h hi hw hfree hd
    have htrying : w.stage = .trying := by
      refine Classical.byContradiction fun hnot => ?_
      obtain ⟨w', -, -, -, hlt, -⟩ := nearer_of_headed h hi hw hnot hfree
      omega
    exact ⟨1, Nat.le_refl _, takes_of_trying hi htrying hfree⟩
  | succ d ih =>
    intro s w h hi hw hfree hd
    by_cases htrying : w.stage = .trying
    · exact ⟨1, by omega, takes_of_trying hi htrying hfree⟩
    · obtain ⟨w', hi', hpath, hbusy, hlt, hfree'⟩ := nearer_of_headed h hi hw htrying hfree
      rw [← hpath] at hfree' ⊢
      obtain ⟨k, hk, htakes⟩ := ih _ w' (isSound_act h (.step i)) hi' (.inl hbusy) hfree' (by omega)
      exact ⟨k + 1, by omega, htakes⟩

/-- Whoever is awake for a path takes its lock, or is about to leave with a wake-up to hand on. -/
theorem headed_or_leaving (h : s.IsSound) (hj : s.IsWoken j path ∨ s.IsBusy j path) :
    s.IsHeaded j path ∨ ∃ w n, s.tasks[j]? = some (.waiting w) ∧ w.path = path ∧
      w.stage = .leaving n true ∧ s.locks.isWoken n j = true := by
  rcases hj with ⟨w, n, hw, hpath, hn, hwoken⟩ | ⟨w, hw, hpath, hbusy⟩
  · obtain ⟨-, hqueued⟩ := h.isQueued_of_isWoken hw hwoken
    cases hstage : w.stage with
    | checking m wasKept => exact .inl ⟨w, hw, hpath, .inl (by rw [hstage]; rfl)⟩
    | sleeping m =>
      rw [hstage] at hn
      cases hn
      exact .inl ⟨w, hw, hpath, .inr ⟨n, hstage, hwoken⟩⟩
    | leaving m gaveUp =>
      rw [hstage] at hn
      cases hn
      cases gaveUp with
      | true => exact .inr ⟨w, n, hw, hpath, hstage, hwoken⟩
      | false => exact .inl ⟨w, hw, hpath, .inl (by rw [hstage]; rfl)⟩
    | _ =>
      rw [hstage] at hqueued
      cases hqueued
  · exact .inl ⟨w, hw, hpath, .inl hbusy⟩

/-- A task that was woken and gives up wakes a sleeper with its next step, if there is one. -/
theorem isWoken_of_giving_up (h : s.IsSound) (hj : s.tasks[j]? = some (.waiting w))
    (hstage : w.stage = .leaving n true) (hwoken : s.locks.isWoken n j = true)
    (hsleeps : (s.act (.step j)).Sleeps i w.path) : ∃ k, (s.act (.step j)).IsWoken k w.path := by
  have hstep : w.step? j s.now s.locks =
      some ({ w with stage := .parting n true }, s.locks.onQueue n fun q => q.leave j) := by
    simp only [LocalWait.step?, hstage]
  rw [act_step hj hstep] at hsleeps ⊢
  have hij : i ≠ j := by
    rintro rfl
    exact not_sleeps_of_stage hj (by simp) hsleeps
  exact isWoken_of_left h hj hstage hwoken hsleeps hij

/-- What locks of one process guarantee, whatever tasks do with them and in whatever order. A lock is
held just when a task has it, and then one task only. Everybody who waits for a lock refers to the
queue of its present slot. When a task sleeps that was not woken though the lock is free, another task
of the path was woken or is busy. A task falls asleep only by a lock that is held. Of those that are
awake, one that gives up wakes a sleeper as it leaves, and any other takes the free lock within five
steps of its own, if nobody is faster. -/
theorem locks_exclude_and_wake (actions : List LocalAction) :
    (∀ path, (run actions).locks.isHeld path = true ↔
      ∃ i : Nat, (run actions).tasks[i]? = some (.holding path)) ∧
    (∀ (i j : Nat) (path : String), (run actions).tasks[i]? = some (.holding path) →
      (run actions).tasks[j]? = some (.holding path) → i = j) ∧
    (∀ (i : Nat) (w : LocalWait) (n : Nat), (run actions).tasks[i]? = some (.waiting w) →
      w.stage.queue? = some n → ∃ slot q, (run actions).locks.slot? w.path = some slot ∧
        slot.queue = n ∧ (run actions).locks.queues[n]? = some q ∧ i ∈ q.users) ∧
    (∀ i path, (run actions).Sleeps i path → (run actions).locks.isHeld path = false →
      ∃ j ≠ i, (run actions).IsWoken j path ∨ (run actions).IsBusy j path) ∧
    (∀ (x : LocalAction) (i : Nat) (w : LocalWait) (n : Nat),
      ((run actions).act x).tasks[i]? = some (.waiting w) → w.stage = .sleeping n →
      (run actions).tasks[i]? ≠ some (.waiting w) →
      (run actions).locks.isHeld w.path = true ∧ ((run actions).act x).locks.isHeld w.path = true) ∧
    ∀ j path, ((run actions).IsWoken j path ∨ (run actions).IsBusy j path) →
      (run actions).locks.isHeld path = false →
      (∃ k ≤ 5, (run (actions ++ List.replicate k (.step j))).tasks[j]? = some (.holding path)) ∨
        ∀ i, (run (actions ++ [.step j])).Sleeps i path →
          ∃ k, (run (actions ++ [.step j])).IsWoken k path := by
  have hsound := isSound_run actions
  refine ⟨hsound.held, hsound.single, ?_, ?_, ?_, ?_⟩
  · intro i w n hi hn
    obtain ⟨slot, hslot, hqueue⟩ := hsound.current i w n hi hn
    obtain ⟨q, hq⟩ := hsound.exists_queue hi hn
    exact ⟨slot, q, hslot, hqueue, hq, ((hsound.served n q hq).users i).mpr ((refers_iff hi).mpr hn)⟩
  · intro i path hsleeps hfree
    obtain ⟨j, hj⟩ := strandsNobody_run actions i path hsleeps hfree
    refine ⟨j, ?_, hj⟩
    rintro rfl
    rcases hj with hwoken | hbusy
    · exact not_isWoken_of_sleeps hsleeps hwoken
    · exact not_isBusy_of_sleeps hsleeps hbusy
  · intro x i w n hnew hstage hold
    exact held_of_fallen_asleep hsound hnew hstage hold
  · intro j path hj hfree
    rcases headed_or_leaving hsound hj with hheaded | ⟨w, n, hw, rfl, hstage, hwoken⟩
    · left
      obtain ⟨k, hk, htakes⟩ := takes_of_headed hsound hheaded hfree
      rw [← run_append] at htakes
      exact ⟨k, hk, htakes⟩
    · right
      intro i hsleeps
      rw [run_concat] at hsleeps ⊢
      exact isWoken_of_giving_up hsound hw hstage hwoken hsleeps

/-- Two tasks sleep behind one that has the lock and then frees it. -/
def freedRun : List LocalAction :=
  List.replicate 3 (.start "/jobs/nightly" 60000) ++ [.step 0] ++ List.replicate 3 (.step 1) ++
    List.replicate 3 (.step 2) ++ [.unlock 0]

theorem locks_exclude_and_wake_freedRun :
    (run freedRun).Sleeps 2 "/jobs/nightly" ∧
      (run freedRun).locks.isHeld "/jobs/nightly" = false ∧
      ∃ j ≠ 2, (run freedRun).IsWoken j "/jobs/nightly" ∨ (run freedRun).IsBusy j "/jobs/nightly" := by
  have hsleeps : (run freedRun).Sleeps 2 "/jobs/nightly" :=
    ⟨⟨"/jobs/nightly", 60000, .sleeping 0⟩, 0, by decide, rfl, rfl, by decide⟩
  have hfree : (run freedRun).locks.isHeld "/jobs/nightly" = false := by decide
  obtain ⟨-, -, -, hrescue, -⟩ := locks_exclude_and_wake freedRun
  exact ⟨hsleeps, hfree, hrescue 2 "/jobs/nightly" hsleeps hfree⟩

end LocalScene

end DurableQueue
