import DurableQueue.Proofs.Lock.LocalProgress
import DurableQueue.Proofs.Lock.SteadyRun

/-!
Whether a lock is free.

In one process a lock is free as soon as nobody has it, though callers that found it taken may be on
their way to it: whoever is then answered that it is free finds a hand-over under way
(`LocalScene.exists_awake_of_free`). Over the coordination service it is free when its directory has no
node, so as long as sessions stay connected nobody has it and nobody who found it taken still waits
for it; and it is free again once every call for it has returned and given back what it acquired
(`Locker.free_of_settled`).
-/

namespace DurableQueue

open Acquisition

/-- Whether a caller in this process still means to take its lock. -/
def LocalStage.goesOn : LocalStage → Bool
  | leaving _ true | parting _ true | .over _ => false
  | _ => true

namespace LocalScene

/-- When somebody waits for a lock that is free, somebody is awake who tries to take it or hands a
wake-up on. -/
theorem exists_awake_of_free (actions : List LocalAction) {i : Nat} {w : LocalWait}
    (hi : (run actions).tasks[i]? = some (.waiting w)) (hgoes : w.stage.goesOn = true)
    (hfree : (run actions).locks.isHeld w.path = false) :
    ∃ j, (run actions).IsWoken j w.path ∨ (run actions).IsBusy j w.path := by
  cases hstage : w.stage with
  | sleeping n =>
    cases hwoken : (run actions).locks.isWoken n i with
    | true => exact ⟨i, .inl ⟨w, n, hi, rfl, by rw [hstage]; rfl, hwoken⟩⟩
    | false => exact strandsNobody_run actions i w.path ⟨w, n, hi, rfl, hstage, hwoken⟩ hfree
  | leaving n gaveUp | parting n gaveUp =>
    cases gaveUp with
    | true =>
      rw [hstage] at hgoes
      cases hgoes
    | false => exact ⟨i, .inr ⟨w, hi, rfl, by rw [hstage]; rfl⟩⟩
  | «over» isAcquired =>
    rw [hstage] at hgoes
    cases hgoes
  | trying | joining n | checking n wasKept => exact ⟨i, .inr ⟨w, hi, rfl, by rw [hstage]; rfl⟩⟩

end LocalScene

namespace Locker

variable {l : Locker} {actions : List LockAction} {i k client : Nat} {node : String}
  {service key directory : String}

theorem isFree_inProcess (hbackend : l.backend = .inProcess)
    (hdirectory : lockDirectory service key = .ok directory) (client : Nat) :
    (l.isFree client service key).1 = .ok (!l.locals.isHeld directory) := by
  simp [isFree, hdirectory, hbackend]

theorem isFree_shared (h : l.IsSound) (hclient : l.coordination.IsConnected client)
    (hdirectory : lockDirectory service key = .ok directory) :
    (l.isFree client service key).1 = .ok (l.coordination.coordinator.childNames directory).isEmpty := by
  rcases Coordination.children_cases h.service.faultless client directory with ⟨-, heq⟩ | ⟨hlost, -⟩
  · simp [isFree, hdirectory, h.shared, heq, Except.map]
  · exact absurd hclient hlost

/-- No call for a lock has a node when its directory is empty. -/
theorem hasNode_of_isEmpty (hfor : (run actions).IsFor i directory)
    (hempty : ((run actions).coordination.coordinator.childNames directory).isEmpty = true)
    (hnode : (run actions).node? i = some node) :
    (run actions).coordination.coordinator.hasNode node = false := by
  refine Bool.eq_false_iff.mpr fun hthere => ?_
  rw [← stateAt_of_length_le (Nat.le_refl actions.length)] at hnode
  obtain ⟨n, rfl⟩ := exists_number hfor hnode
  have hmem := (Coordinator.mem_childNames_iff (isSound_run actions).service.service.holdsLockNodes).mpr
    ⟨n, rfl, hthere⟩
  rw [List.isEmpty_iff.mp hempty] at hmem
  cases hmem

theorem not_isHeldOn_of_isEmpty (h : StaysConnected actions) (hfor : (run actions).IsFor i directory)
    (hempty : ((run actions).coordination.coordinator.childNames directory).isEmpty = true) :
    ¬ IsHeldOn actions i node := by
  intro hheld
  have hgone := hasNode_of_isEmpty hfor hempty (node?_of_heldNode? hheld.held)
  rw [hasNode_of_isHeldOn h hheld] at hgone
  cases hgone

theorem not_contending_of_isEmpty (h : StaysConnected actions) (hfor : (run actions).IsFor i directory)
    (hempty : ((run actions).coordination.coordinator.childNames directory).isEmpty = true)
    (hfound : FoundTakenAt actions k i) : (run actions).acquisition? i = none := by
  refine Option.eq_none_iff_forall_ne_some.mpr fun a ha => ?_
  obtain ⟨node, hnode, hthere⟩ := exists_node_of_foundTakenAt h hfound ha
  obtain ⟨call, hcall, hp⟩ := acquisition?_eq_some_iff.mp ha
  have hown : (run actions).node? i = some node := by
    rw [node?, hcall, Option.bind_some, LockCall.node?_of_shared hp, hnode]
  rw [hasNode_of_isEmpty hfor hempty hown] at hthere
  cases hthere

/-- Whether a call has returned and the lock that it may have acquired was given back: nobody has it any
more, and its node is neither left behind nor still to be deleted in the background. -/
structure IsSettled (actions : List LockAction) (i : Nat) : Prop where
  returned : ∀ call, (run actions).calls[i]? = some call → call.outcome? ≠ none
  parted : ∀ node, ¬ IsHeldOn actions i node
  cleared : ∀ d ∈ (run actions).cleanups, (run actions).heldNode? i ≠ some d.node
  inside : .part i .droppedOutside ∉ actions

/-- A call that is settled has left no node. -/
theorem IsSettled.not_isAccounted (h : IsSettled actions i) (hsteady : StaysConnected actions)
    (hcreated : CreatedAt actions k i node) : ¬ IsAccounted actions i node := by
  intro haccount
  cases haccount with
  | inUse use =>
    cases use with
    | contending contender own =>
      obtain ⟨call, hcall, hp⟩ := acquisition?_eq_some_iff.mp contender
      refine h.returned call hcall ?_
      rw [LockCall.outcome?, hp]
    | held held => exact h.parted node held
    | dropped client pending =>
      exact h.cleared _ pending (heldNode?_of_pending hcreated pending)
  | refused refusal => exact not_refusedAt hsteady refusal
  | aborted action gone =>
    obtain ⟨call, hcall, hp⟩ := gone
    refine h.returned call hcall ?_
    rw [LockCall.outcome?, hp]
  | droppedOutside action held => exact h.inside (List.mem_of_getElem? action)

/-- The directory of a lock is empty once all calls for it are settled. -/
theorem free_of_settled (hsteady : StaysConnected actions)
    (h : ∀ i, (run actions).IsFor i directory → IsSettled actions i) :
    ((run actions).coordination.coordinator.childNames directory).isEmpty = true := by
  refine List.isEmpty_iff.mpr (List.eq_nil_iff_forall_not_mem.mpr fun name hname => ?_)
  have hsound := isSound_run actions
  obtain ⟨n, -, hthere⟩ := (Coordinator.mem_childNames_iff hsound.service.service.holdsLockNodes).mp hname
  obtain ⟨x, hx, hpath⟩ := Coordinator.hasNode_iff.mp hthere
  obtain ⟨i, ⟨⟨k, hcreated⟩, -⟩, haccount⟩ := exists_account actions x hx
  rw [hpath] at hcreated haccount
  -- the call that created the node asks for this lock
  obtain ⟨call, hcall, hnode⟩ := Option.bind_eq_some_iff.mp hcreated.2
  obtain ⟨d, m, hfor, hsame, -⟩ :=
    ((isSound_stateAt actions (k + 1)).calls call (List.mem_of_getElem? hcall)).numbered_node hnode
  obtain ⟨rfl, -⟩ := nodePath_injective hsame
  have hforRun : (run actions).IsFor i directory := isFor_run ⟨call, hcall, hfor⟩
  exact (h i hforRun).not_isAccounted hsteady hcreated haccount

/-- Whoever asks whether a lock is free is always answered, in this process and, as long as sessions stay
connected, over the coordination service. In this process the lock is free just when nobody has it; if
somebody still waits for it then, a hand-over is under way. Over the service, when the lock is free
nobody has it, and no call that found it taken still waits for it; and it is free if every call for it has
returned and what it acquired was given back. -/
theorem isFree_contract {service key directory : String}
    (hdirectory : lockDirectory service key = .ok directory) :
    (∀ (actions : List LocalAction) (l : Locker) (client : Nat), l.backend = .inProcess →
      l.locals = (LocalScene.run actions).locks →
      ∃ free, (l.isFree client service key).1 = .ok free ∧
        (free = true ↔ ∀ i : Nat, (LocalScene.run actions).tasks[i]? ≠ some (.holding directory)) ∧
        (free = true → ∀ (i : Nat) (w : LocalWait),
          (LocalScene.run actions).tasks[i]? = some (.waiting w) → w.path = directory →
          w.stage.goesOn = true → ∃ j, (LocalScene.run actions).IsWoken j directory ∨
            (LocalScene.run actions).IsBusy j directory)) ∧
    ∀ (actions : List LockAction) (client : Nat), StaysConnected actions →
      client < (run actions).coordination.clients.length →
      ∃ free, ((run actions).isFree client service key).1 = .ok free ∧
        (free = true → ∀ i, (run actions).IsFor i directory →
          (∀ node, ¬ IsHeldOn actions i node) ∧
            ∀ k, FoundTakenAt actions k i → (run actions).acquisition? i = none) ∧
        ((∀ i, (run actions).IsFor i directory → IsSettled actions i) → free = true) := by
  constructor
  · intro actions l client hbackend hlocals
    refine ⟨!l.locals.isHeld directory, isFree_inProcess hbackend hdirectory client, ?_, ?_⟩
    · have hheld := (LocalScene.isSound_run actions).held directory
      rw [hlocals, Bool.not_eq_true', Bool.eq_false_iff, ne_eq, hheld, not_exists]
    · intro hfree i w hi hpath hgoes
      rw [hlocals, Bool.not_eq_true', ← hpath] at hfree
      rw [← hpath]
      exact LocalScene.exists_awake_of_free actions hi hgoes hfree
  · intro actions client hsteady hclient
    have hsound := isSound_run actions
    have hconnected := (isUndisturbed_run hsteady).isConnected hsound.service hclient
    refine ⟨_, isFree_shared hsound hconnected hdirectory, ?_, free_of_settled hsteady⟩
    intro hempty i hfor
    refine ⟨fun node => not_isHeldOn_of_isEmpty hsteady hfor hempty, fun k hfound => ?_⟩
    exact not_contending_of_isEmpty hsteady hfor hempty hfound

/-- A call gets a lock and releases it. -/
def returnedRun : List LockAction :=
  [.openSession, .start ⟨0, "jobs", "nightly", .ofSeconds 60⟩] ++
    List.replicate 4 (.task (.call 0)) ++ [.part 0 .released]

theorem isFree_contract_returnedRun :
    lockDirectory "jobs" "nightly" = .ok "/jobs/nightly" ∧
      ((run returnedRun).isFree 0 "jobs" "nightly").1 = .ok true ∧
      ∃ j, (LocalScene.run LocalScene.freedRun).IsWoken j "/jobs/nightly" ∨
        (LocalScene.run LocalScene.freedRun).IsBusy j "/jobs/nightly" := by
  have hdirectory : lockDirectory "jobs" "nightly" = .ok "/jobs/nightly" := by decide +kernel
  obtain ⟨hlocal, hshared⟩ := isFree_contract hdirectory
  refine ⟨hdirectory, ?_, ?_⟩
  · have hsteady : StaysConnected returnedRun := by
      intro client change hmem
      simp [returnedRun] at hmem
    obtain ⟨free, hanswer, -, hsettled⟩ := hshared returnedRun 0 hsteady (by decide +kernel)
    rw [hanswer, hsettled]
    rintro i ⟨call, hcall, -⟩
    have hlength : (run returnedRun).calls.length = 1 := by decide +kernel
    have hlt := (List.getElem?_eq_some_iff.mp hcall).1
    rw [hlength, Nat.lt_one_iff] at hlt
    subst hlt
    constructor
    · intro call hcall hout
      have hreturned : (((run returnedRun).calls[0]?).bind LockCall.outcome?).isSome = true := by
        decide +kernel
      rw [hcall, Option.bind_some, hout] at hreturned
      cases hreturned
    · intro node hheld
      have hnode : (run returnedRun).heldNode? 0 = some "/jobs/nightly/lock-0000000000" := by
        decide +kernel
      rw [hheld.held] at hnode
      cases hnode
      exact hheld.kept 6 (.part 0 .released) rfl (by decide +kernel) (.inr (.inr ⟨_, rfl⟩))
    · intro d hd
      have hnone : (run returnedRun).cleanups = [] := by decide +kernel
      rw [hnone] at hd
      cases hd
    · simp [returnedRun]
  · obtain ⟨free, hanswer, -, hawake⟩ := hlocal LocalScene.freedRun
      ⟨.inProcess, 0, (LocalScene.run LocalScene.freedRun).locks, .empty, [], none, [], []⟩ 0 rfl rfl
    have hfree : free = true := by
      rw [isFree_inProcess rfl hdirectory] at hanswer
      cases hanswer
      decide
    exact hawake hfree 1 ⟨"/jobs/nightly", 60000, .sleeping 0⟩ (by decide) rfl rfl

/-- A call gets a lock, a second one finds it taken and sleeps, and the first releases it. -/
def handingOverRun : List LockAction :=
  [.openSession, .start ⟨0, "jobs", "nightly", .ofSeconds 60⟩,
    .start ⟨0, "jobs", "nightly", .ofSeconds 60⟩] ++ List.replicate 2 (.task (.call 0)) ++
    List.replicate 4 (.task (.call 1)) ++ [.part 0 .released]

/-- A lock of one process is said to be free while a call that found it taken sleeps until it is woken or
its deadline comes. -/
theorem free_while_waited_for :
    let l := handingOverRun.foldl act (empty .inProcess)
    (l.isFree 0 "jobs" "nightly").1 = .ok true ∧ l.IsFor 1 "/jobs/nightly" ∧
      (l.calls[1]?).bind LockCall.wakeTime? = some 60000 := by
  have hdirectory : lockDirectory "jobs" "nightly" = .ok "/jobs/nightly" := by decide +kernel
  refine ⟨?_, ⟨_, rfl, rfl⟩, by decide +kernel⟩
  rw [isFree_inProcess rfl hdirectory]
  have hfree : (handingOverRun.foldl act (empty .inProcess)).locals.isHeld "/jobs/nightly" = false := by
    decide +kernel
  rw [hfree]
  rfl

end Locker

end DurableQueue
