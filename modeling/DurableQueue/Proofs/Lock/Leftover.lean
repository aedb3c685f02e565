import DurableQueue.Proofs.Lock.Release

/-!
What is left in the tree.

A node of the tree is in use (`Locker.IsInUse`) as long as its call is in progress, its lock has not
been parted with, or its deletion is still to be done in the background. Contenders, releases and the
background delete the others (`Locker.deletion?`), each of them once. Where the session of the client
is not connected just then, the deletion is refused and nobody tries again: such a node stays until
its session expires. So does the node of a call that was aborted, and of a lock that was dropped where
nothing can run in the background. Nothing else is left (`Locker.nodes_accounted`).
-/

namespace DurableQueue

open Acquisition

/-- Whether an action parts with the lock that a call acquired. -/
def LockAction.PartsWith (x : LockAction) (i : Nat) : Prop :=
  x = .abort i ∨ x = .detach i ∨ ∃ way, x = .part i way

namespace Acquisition

/-- The node that a contender is about to delete. -/
def deletion? (a : Acquisition) : Option LockCleanup :=
  match a.stage with
  | .discarding | .withdrawing => a.stale.map fun node => ⟨a.client, node⟩
  | _ => none

theorem stageOf_ne_gaveUp (state : LockState) : stageOf state ≠ .over (.ok none) := by
  cases state <;> simp [stageOf]

variable {now : Nat} {a a' : Acquisition} {c : Coordination} {ch : ServiceChange} {node : String}

/-- A contender that moves keeps its node, and does not give up with it, or was to delete it. -/
theorem Move.keeps_node (h : Move now c a a' ch) (hh : a.IsHeard) (hs : a.IsStaged)
    (hn : a.node? = some node) :
    (a'.node? = some node ∧ a'.stage ≠ .over (.ok none)) ∨
      (a.deletion? = some ⟨a.client, node⟩ ∧ a'.stage ≠ .withdrawing) := by
  have hstale : a.state = .unlocked → a.stale = some node := by
    intro hstate
    rw [Acquisition.node?, hstate] at hn
    exact hn
  cases h with
  | discarded stage =>
    right
    rw [deletion?, stage, hstale (hs.state_of_discarding stage)]
    exact ⟨rfl, by simp⟩
  | withdrawn stage =>
    right
    rw [deletion?, stage, hstale (hs.state_of_withdrawing stage)]
    exact ⟨rfl, by simp⟩
  | created stage session connected =>
    have hnone := hs.stale_of_creating stage
    rw [hstale (hs.state_of_creating stage)] at hnone
    cases hnone
  | first stage connected position =>
    exact .inl ⟨(node?_advance a (by simp)).trans hn, stageOf_ne_gaveUp _⟩
  | absent stage connected position =>
    exact .inl ⟨(node?_advance a (by simp)).trans hn, stageOf_ne_gaveUp _⟩
  | @woken signal rest stage signals ne =>
    have hheard := hh signal (by rw [signals]; exact List.mem_cons_self)
    have hkept := node?_advance { a with signals := rest } (ne_created_of_isHeard hheard)
    exact .inl ⟨hkept.trans hn, stageOf_ne_gaveUp _⟩
  | timedOut stage due => exact .inl ⟨(node?_apply a (by simp)).trans hn, by simp⟩
  | lossHeard stage signals => exact .inl ⟨hn, by simp [stage]⟩
  | refused stage lost => exact .inl ⟨hn, by simp⟩
  | behind stage connected position => exact .inl ⟨hn, by simp⟩
  | watched stage present => exact .inl ⟨hn, by simp [withWatch]⟩
  | vanished stage gone => exact .inl ⟨hn, by simp⟩

/-- A contender that is about to delete a node does. -/
theorem step?_of_deletion? (now : Nat) (c : Coordination) {d : LockCleanup}
    (hd : a.deletion? = some d) :
    ∃ a', a.step? now c = some (a', (c.delete d.client d.node).2) := by
  unfold deletion? at hd
  split at hd
  · rename_i stage
    obtain ⟨node, hstale, rfl⟩ := Option.map_eq_some_iff.mp hd
    rw [step?, stage, hstale]
    exact ⟨_, rfl⟩
  · rename_i stage
    obtain ⟨node, hstale, rfl⟩ := Option.map_eq_some_iff.mp hd
    rw [step?, stage, hstale]
    exact ⟨_, rfl⟩
  · cases hd

end Acquisition

namespace LockCall

variable {now i : Nat} {c : Coordination} {call call' : LockCall} {x : LockAction}
  {ch : ServiceChange} {node : String} {a : Acquisition}

/-- What becomes of the node of a contender: the contender keeps it, gets the lock by it, is gone
without it, or was to delete it. -/
theorem Step.keeps_node (hs : Step now c i call x call' ch) (h : call.IsSound c)
    (hp : call.progress = .shared a) (hn : a.node? = some node) :
    (∃ a', call'.progress = .shared a' ∧ a'.node? = some node) ∨
      (x = .task (.call i) ∧ call'.heldNode? = some node ∧ call'.isDetached = call.isDetached) ∨
      (call.isAborted = true ∧ call'.progress = .gone) ∨
      (x = .task (.call i) ∧ call.isAborted = false ∧ a.deletion? = some ⟨a.client, node⟩) := by
  cases hs with
  | begun progress => cases hp.symm.trans progress
  | gone aborted outcome => exact .inr (.inr (.inl ⟨aborted, rfl⟩))
  | @moved _ _ a' _ action progress move =>
    cases hp.symm.trans progress
    obtain ⟨ha, -⟩ := h.contender a hp
    rcases move.keeps_node ha.heard ha.staged hn with ⟨hkept, hgoes⟩ | ⟨hdeletes, hstage⟩
    · have hstaged := move.isStaged ha.heard ha.staged
      unfold IsStaged at hstaged
      unfold ofAcquisition
      cases hstage : a'.stage with
      | «over» result =>
        rw [hstage] at hstaged
        cases result with
        | error e => exact hstaged.elim
        | ok held =>
          cases held with
          | none => exact absurd hstage hgoes
          | some own =>
            have hown := node?_of_state hstaged
            rw [hkept] at hown
            cases hown
            rcases action with ⟨hx, -⟩ | ⟨-, hwithdrawing⟩
            · exact .inr (.inl ⟨hx, rfl, rfl⟩)
            · rw [hstage] at hwithdrawing
              cases hwithdrawing
      | _ => exact .inl ⟨a', rfl, hkept⟩
    · rcases action with ⟨hx, haborted⟩ | ⟨-, hwithdrawing⟩
      · exact .inr (.inr (.inr ⟨hx, haborted, hdeletes⟩))
      · exact absurd hwithdrawing hstage
  | heardEvent progress hears =>
    cases hp.symm.trans progress
    obtain ⟨s, r, seen, -, -, rfl⟩ := hearEvent?_eq_some hears
    exact .inl ⟨_, rfl, hn⟩
  | heardWatch progress hears =>
    cases hp.symm.trans progress
    obtain ⟨-, -, rfl⟩ := hearWatch?_eq_some hears
    exact .inl ⟨_, rfl, hn⟩
  | aborted => exact .inl ⟨a, hp, hn⟩
  | detached => exact .inl ⟨a, hp, hn⟩

theorem Step.isAborted_cases (hs : Step now c i call x call' ch) (h : call'.isAborted = true) :
    call.isAborted = true ∨ x = .abort i := by
  cases hs with
  | aborted => exact .inr rfl
  | _ => exact .inl h

theorem Step.isDetached_eq (hs : Step now c i call x call' ch) (hx : x ≠ .detach i) :
    call'.isDetached = call.isDetached := by
  cases hs with
  | detached => exact absurd rfl hx
  | _ => rfl

/-- A call that is gone stays so. -/
theorem Step.gone_of_gone (hs : Step now c i call x call' ch) (h : call.progress = .gone) :
    call'.progress = .gone := by
  cases hs with
  | begun progress => cases h.symm.trans progress
  | gone aborted outcome => rfl
  | moved action progress move => cases h.symm.trans progress
  | heardEvent progress hears => cases h.symm.trans progress
  | heardWatch progress hears => cases h.symm.trans progress
  | aborted => exact h
  | detached => exact h

end LockCall

namespace Locker

variable {l : Locker} {x : LockAction} {i : Nat} {node : String} {actions : List LockAction}
  {k : Nat} {call : LockCall} {lock : GlobalLock} {d : LockCleanup}

/-- The node that an action deletes, and the client that asks for it. -/
def deletion? (l : Locker) : LockAction → Option LockCleanup
  | .task (.call i) => do
    let call ← l.calls[i]?
    if call.isAborted then none else (← call.acquisition?).deletion?
  | .task (.cleanup d) => if l.cleanups.contains d then some d else none
  | .part i .released => do
    match (← (l.calls[i]?).bind LockCall.lock?).hold with
    | .shared client node => some ⟨client, node⟩
    | .inProcess _ => none
  | _ => none

/-- The next step of a call that is a contender. -/
theorem stepCall?_contender {a : Acquisition} (hcall : l.calls[i]? = some call)
    (hp : call.progress = .shared a) (haborted : call.isAborted = false) :
    l.stepCall? i = (a.step? l.now l.coordination).map fun p =>
      ({ l with coordination := p.2 } : Locker).proceed i call
        (LockCall.ofAcquisition call.request p.1) := by
  unfold stepCall?
  simp only [hcall, Option.bind_eq_bind, Option.bind_some, hp, haborted]
  cases a.step? l.now l.coordination <;> rfl

theorem coordination_proceed (l : Locker) (i : Nat) (call : LockCall) (progress : LockProgress) :
    (l.proceed i call progress).coordination = l.coordination := by
  rcases proceed_cases l i call progress with heq | ⟨lock, -, heq⟩
  · rw [heq]
    rfl
  · rw [heq, coordination_drop]
    rfl

theorem coordination_of_step {t : LockTask} {l' : Locker} (h : step? t l = some l') :
    (l.act (.task t)).coordination = l'.coordination := by
  show (((step? t l).map refresh).getD l).coordination = _
  rw [h]
  rfl

/-- A deletion does to the service what the deletion of that node does. -/
theorem coordination_of_deletion? (h : l.IsSound) (hd : l.deletion? x = some d) :
    (l.act x).coordination = l.coordination.after (l.coordination.deletion d.client d.node) := by
  rw [← Coordination.delete_eq_after h.service.faultless]
  unfold deletion? at hd
  split at hd
  · rename_i i
    simp only [Option.bind_eq_bind, Option.bind_eq_some_iff] at hd
    obtain ⟨call, hcall, hd⟩ := hd
    split at hd
    · cases hd
    · rename_i haborted
      obtain ⟨a, ha, hd⟩ := Option.bind_eq_some_iff.mp hd
      have hstep := stepCall?_contender hcall (LockCall.progress_of_acquisition? ha)
        (Bool.eq_false_iff.mpr haborted)
      obtain ⟨a', hdiscards⟩ := step?_of_deletion? l.now l.coordination hd
      rw [hdiscards, Option.map_some] at hstep
      have hact := coordination_of_step (t := .call i) hstep
      rw [hact, coordination_proceed]
  · split at hd
    · rename_i hcontains
      cases hd
      have hstep : step? (.cleanup d) l =
          some { l with coordination := (l.coordination.delete d.client d.node).2
                        cleanups := l.cleanups.erase d } := by
        simp only [step?, hcontains, ↓reduceIte]
      exact coordination_of_step hstep
    · cases hd
  · rename_i i
    obtain ⟨lock, hlock, hd⟩ := Option.bind_eq_some_iff.mp hd
    split at hd
    · rename_i client node hhold
      cases hd
      simp only [act, hlock, partWith, release, hhold]
      rfl
    · cases hd
  · cases hd

theorem cleanups_drop (l : Locker) (lock : GlobalLock) : l.cleanups ⊆ (l.drop lock).cleanups := by
  unfold drop
  split
  · exact fun _ h => h
  · exact fun _ h => List.mem_append_left _ h

theorem cleanups_proceed (l : Locker) (i : Nat) (call : LockCall) (progress : LockProgress) :
    l.cleanups ⊆ (l.proceed i call progress).cleanups := by
  rcases proceed_cases l i call progress with heq | ⟨lock, -, heq⟩
  · rw [heq]
    exact fun _ h => h
  · rw [heq]
    exact cleanups_drop (l.setProgress i progress) lock

theorem cleanups_stepCall? {l' : Locker} (h : l.stepCall? i = some l') : l.cleanups ⊆ l'.cleanups := by
  unfold stepCall? at h
  simp only [Option.bind_eq_bind, Option.bind_eq_some_iff] at h
  obtain ⟨call, hcall, h⟩ := h
  split at h
  · cases h
  · cases h
  · cases h
    exact fun _ h => h
  · cases h
    exact fun _ h => h
  · cases h
    exact cleanups_proceed l i call _
  · obtain ⟨p, -, h⟩ := Option.bind_eq_some_iff.mp h
    cases h
    exact cleanups_proceed { l with locals := p.2 } i call _
  · obtain ⟨p, -, h⟩ := Option.bind_eq_some_iff.mp h
    cases h
    exact cleanups_proceed { l with coordination := p.2 } i call _

/-- Only the task that deletes a node in the background takes it off the list. -/
theorem mem_cleanups_step? {t : LockTask} {l' : Locker} (ht : t ≠ .cleanup d) (h : step? t l = some l')
    (hd : d ∈ l.cleanups) : d ∈ l'.cleanups := by
  cases t with
  | call i => exact cleanups_stepCall? h hd
  | watch i w =>
    simp only [step?, Option.bind_eq_bind, Option.bind_eq_some_iff] at h
    obtain ⟨a, -, a', -, heq⟩ := h
    cases heq
    exact hd
  | events i =>
    simp only [step?, Option.bind_eq_bind, Option.bind_eq_some_iff] at h
    obtain ⟨a, -, a', -, heq⟩ := h
    cases heq
    exact hd
  | cleanup d' =>
    have hne : d ≠ d' := fun heq => ht (by rw [heq])
    simp only [step?] at h
    split at h
    · cases h
      exact (List.mem_erase_of_ne hne).mpr hd
    · cases h

theorem cleanups_timeOut? {l' : Locker} (h : l.timeOut? i = some l') : l'.cleanups = l.cleanups := by
  simp only [timeOut?, Option.bind_eq_bind, Option.bind_eq_some_iff] at h
  obtain ⟨call, -, a, -, a', -, h⟩ := h
  split at h
  · cases h
  · cases h
    rfl

theorem cleanups_partWith (l : Locker) (lock : GlobalLock) (way : Trial.LockParting) :
    l.cleanups ⊆ (l.partWith lock way).cleanups := by
  cases way with
  | released =>
    simp only [partWith, release]
    split
    · exact fun _ h => h
    · exact fun _ h => h
  | dropped => exact cleanups_drop l lock
  | droppedOutside =>
    simp only [partWith, dropOutside]
    split
    · exact fun _ h => h
    · exact fun _ h => h

/-- What is to be deleted in the background stays so until that is done. -/
theorem mem_cleanups_act (x : LockAction) (hd : d ∈ l.cleanups) :
    d ∈ (l.act x).cleanups ∨ x = .task (.cleanup d) := by
  refine or_iff_not_imp_right.mpr fun hx => ?_
  cases x with
  | task t =>
    show d ∈ (((step? t l).map refresh).getD l).cleanups
    cases hs : step? t l with
    | none => exact hd
    | some l' =>
      have hkept : d ∈ l'.cleanups := mem_cleanups_step? (fun ht => hx (congrArg _ ht)) hs hd
      exact hkept
  | timeOut i =>
    show d ∈ (((l.timeOut? i).map refresh).getD l).cleanups
    cases hs : l.timeOut? i with
    | none => exact hd
    | some l' =>
      have hkept : d ∈ l'.cleanups := (cleanups_timeOut? hs).symm ▸ hd
      exact hkept
  | abort i =>
    simp only [act, abort]
    split
    · exact cleanups_drop l _ hd
    · exact hd
  | detach i =>
    simp only [act, detach]
    split
    · exact cleanups_drop l _ hd
    · exact hd
  | part i way =>
    simp only [act]
    split
    · exact cleanups_partWith l _ way hd
    · exact hd
  | isFree client service key =>
    simp only [act, isFree]
    split
    · exact hd
    · split
      · exact hd
      · exact hd
  | start r =>
    simp only [act]
    split
    · exact hd
    · exact hd
  | clone client =>
    simp only [act]
    split
    · exact hd
    · exact hd
  | openSession => exact hd
  | undergo client change => exact hd
  | pass millis => exact hd

/-- Dropping a shared lock leaves its node to be deleted in the background. -/
theorem mem_cleanups_of_drop {client : Nat} (hhold : lock.hold = .shared client node) :
    ⟨client, node⟩ ∈ (l.drop lock).cleanups := by
  unfold drop
  rw [hhold]
  exact List.mem_append_right _ (List.mem_singleton_self _)

theorem calls_proceed {progress : LockProgress} (hcall : l.calls[i]? = some call) :
    (l.proceed i call progress).calls = l.calls.set i { call with progress } := by
  rcases proceed_cases l i call progress with heq | ⟨lock, -, heq⟩
  · rw [heq, calls_setProgress hcall]
  · rw [heq, calls_drop, calls_setProgress hcall]

theorem proceed_of_detached (h : call.isDetached = true) :
    l.proceed i call (.over (.acquired lock)) =
      (l.setProgress i (.over (.acquired lock))).drop lock := by
  simp [proceed, h]

/-- A lock that a call acquires for which nobody waits is dropped. -/
theorem mem_cleanups_of_detached {a : Acquisition} {call' : LockCall} {client : Nat}
    (hcall : l.calls[i]? = some call) (hp : call.progress = .shared a)
    (hdetached : call.isDetached = true) (hcall' : (l.act (.task (.call i))).calls[i]? = some call')
    (hlock : call'.lock? = some lock) (hhold : lock.hold = .shared client node) :
    ⟨client, node⟩ ∈ (l.act (.task (.call i))).cleanups := by
  have hact : l.act (.task (.call i)) = ((l.stepCall? i).map refresh).getD l := rfl
  have hnone : call.lock? = none := by
    rw [LockCall.lock?, LockCall.outcome?, hp]
    rfl
  have hlt := (List.getElem?_eq_some_iff.mp hcall).1
  cases haborted : call.isAborted with
  | true =>
    have hgone : l.stepCall? i = some (l.setProgress i .gone) := by
      unfold stepCall?
      simp [hcall, hp, haborted]
    rw [hact, hgone] at hcall'
    have hset : (l.setProgress i .gone).calls[i]? = some call' := hcall'
    rw [calls_setProgress hcall, List.getElem?_set_self hlt] at hset
    cases hset
    cases hlock
  | false =>
    rw [hact, stepCall?_contender hcall hp haborted] at hcall' ⊢
    cases hs : a.step? l.now l.coordination with
    | none =>
      rw [hs] at hcall'
      have hsame : l.calls[i]? = some call' := hcall'
      rw [hcall] at hsame
      cases hsame
      rw [hnone] at hlock
      cases hlock
    | some p =>
      rw [hs] at hcall'
      have hset : (({ l with coordination := p.2 } : Locker).proceed i call
          (LockCall.ofAcquisition call.request p.1)).calls[i]? = some call' := hcall'
      rw [calls_proceed (l := { l with coordination := p.2 }) hcall, List.getElem?_set_self hlt] at hset
      cases hset
      have hover := LockCall.progress_of_lock? hlock
      show _ ∈ (({ l with coordination := p.2 } : Locker).proceed i call
          (LockCall.ofAcquisition call.request p.1)).cleanups
      rw [show LockCall.ofAcquisition call.request p.1 = .over (.acquired lock) from hover,
        proceed_of_detached hdetached]
      exact mem_cleanups_of_drop hhold

/-- Whether a call has a lock by a node, and nobody has parted with it. -/
structure IsHeldOn (actions : List LockAction) (i : Nat) (node : String) : Prop where
  held : (run actions).heldNode? i = some node
  kept : ∀ (k : Nat) (x : LockAction), actions[k]? = some x →
    (stateAt actions k).heldNode? i = some node → ¬ x.PartsWith i
  attended : ∀ call, (run actions).calls[i]? = some call → call.isDetached = false

/-- Whether a node that a call created is still of use. -/
inductive IsInUse (actions : List LockAction) (i : Nat) (node : String) : Prop where
  /-- The call is in progress and has the node. -/
  | contending {a : Acquisition} (contender : (run actions).acquisition? i = some a)
    (own : a.node? = some node)
  /-- The lock by it has not been parted with. -/
  | held (held : IsHeldOn actions i node)
  /-- The lock by it was dropped, and the deletion in the background is still to be done. -/
  | dropped (client : Nat) (pending : ⟨client, node⟩ ∈ (run actions).cleanups)

/-- Whether the action of a place is to delete a node and its client is not connected. -/
def RefusedAt (actions : List LockAction) (k : Nat) (node : String) : Prop :=
  ∃ x client, actions[k]? = some x ∧ (stateAt actions k).deletion? x = some ⟨client, node⟩ ∧
    ¬ (stateAt actions k).coordination.IsConnected client

/-- Why a node that a call created is still in the tree. -/
inductive IsAccounted (actions : List LockAction) (i : Nat) (node : String) : Prop where
  | inUse (use : IsInUse actions i node)
  /-- Its deletion was refused. -/
  | refused {k : Nat} (refusal : RefusedAt actions k node)
  /-- The call was aborted and left it behind. -/
  | aborted (action : .abort i ∈ actions)
    (gone : ∃ call, (run actions).calls[i]? = some call ∧ call.progress = .gone)
  /-- The lock by it was dropped where nothing can run in the background. -/
  | droppedOutside {k : Nat} (action : actions[k]? = some (.part i .droppedOutside))
    (held : (stateAt actions k).heldNode? i = some node)

/-- Only a call that was aborted is marked so. -/
theorem abort_mem_of_isAborted (hcall : (run actions).calls[i]? = some call)
    (haborted : call.isAborted = true) : .abort i ∈ actions := by
  induction actions using List.reverseRecOn generalizing call with
  | nil => cases hcall
  | append_singleton actions x ih =>
    rw [run_concat] at hcall
    obtain ⟨ch, -, hcases⟩ := call_act (isSound_run actions) x hcall
    rcases hcases with ⟨before, hbefore, step⟩ | ⟨hsame, -⟩ | ⟨-, r, rfl⟩
    · rcases step.isAborted_cases haborted with hold | rfl
      · exact List.mem_append_left _ (ih hbefore hold)
      · exact List.mem_append_right _ (List.mem_singleton_self _)
    · exact List.mem_append_left _ (ih hsame haborted)
    · cases haborted

theorem RefusedAt.concat (h : RefusedAt actions k node) (x : LockAction) :
    RefusedAt (actions ++ [x]) k node := by
  obtain ⟨y, client, hk, hdeletion, hlost⟩ := h
  have hlt := (List.getElem?_eq_some_iff.mp hk).1
  refine ⟨y, client, ?_, ?_, ?_⟩
  · rw [List.getElem?_append_left hlt]
    exact hk
  · rw [stateAt_concat x (Nat.le_of_lt hlt)]
    exact hdeletion
  · rw [stateAt_concat x (Nat.le_of_lt hlt)]
    exact hlost

theorem stateAt_length (actions : List LockAction) (x : LockAction) :
    stateAt (actions ++ [x]) actions.length = run actions := by
  rw [stateAt_concat x (Nat.le_refl _), stateAt_of_length_le (Nat.le_refl _)]

/-- A node that stays in spite of its deletion stays because it was refused. -/
theorem refusedAt_of_deletion? {n : LockNode} (client : Nat)
    (hd : (run actions).deletion? x = some ⟨client, n.path⟩)
    (hn : n ∈ ((run actions).act x).coordination.coordinator.nodes) :
    RefusedAt (actions ++ [x]) actions.length n.path := by
  refine ⟨x, client, by simp, ?_, ?_⟩
  · rw [stateAt_length]
    exact hd
  · rw [stateAt_length]
    rw [coordination_of_deletion? (isSound_run actions) hd] at hn
    rcases (run actions).coordination.deletion_cases client n.path with ⟨-, hch⟩ | ⟨hlost, -⟩
    · rw [hch] at hn
      have hkept := (Coordinator.mem_nodes_removeAll.mp hn).2
      simp at hkept
    · exact hlost

/-- A call that has just got the lock has it, or has dropped it since nobody waits for it. -/
theorem isInUse_of_grant {a : Acquisition} {call' : LockCall}
    (hcall : (run actions).calls[i]? = some call) (hp : call.progress = .shared a)
    (hcall' : ((run actions).act (.task (.call i))).calls[i]? = some call')
    (hheld : call'.heldNode? = some node) (hdetached : call'.isDetached = call.isDetached) :
    IsInUse (actions ++ [.task (.call i)]) i node := by
  cases hd : call.isDetached with
  | true =>
    obtain ⟨lock, hlock, hhold⟩ := Option.bind_eq_some_iff.mp hheld
    split at hhold
    · rename_i client own hshared
      cases hhold
      refine .dropped client ?_
      rw [run_concat]
      exact mem_cleanups_of_detached hcall hp hd hcall' hlock hshared
    · cases hhold
  | false =>
    have hnone : (run actions).heldNode? i = none := by
      rw [heldNode?, hcall, Option.bind_some, LockCall.heldNode?_of_shared hp]
    refine .held ⟨?_, ?_, ?_⟩
    · rw [run_concat, heldNode?, hcall']
      exact hheld
    · -- before this step it did not have the lock
      intro k y hk hearly
      have hlt := (List.getElem?_eq_some_iff.mp hk).1
      rw [List.length_append, List.length_singleton] at hlt
      have hlate := heldNode?_stateAt_of_le (Nat.le_of_lt_succ hlt) hearly
      rw [stateAt_length, hnone] at hlate
      cases hlate
    · intro own hown
      rw [run_concat, hcall'] at hown
      cases hown
      rw [hdetached, hd]

section

variable {n : LockNode} (hn : n ∈ ((run actions).act x).coordination.coordinator.nodes)

include hn

/-- The node of a contender that stays is accounted for after an action. -/
theorem isAccounted_of_contending {a : Acquisition} (ha : (run actions).acquisition? i = some a)
    (hown : a.node? = some n.path) : IsAccounted (actions ++ [x]) i n.path := by
  have hsound := isSound_run actions
  obtain ⟨call, hcall, hp⟩ := acquisition?_eq_some_iff.mp ha
  obtain ⟨call', hcall', hcases⟩ := exists_call_act hsound x hcall
  rcases hcases with ⟨ch, step⟩ | rfl
  · rcases step.keeps_node (hsound.calls call (List.mem_of_getElem? hcall)) hp hown with
      ⟨a', hp', hown'⟩ | ⟨rfl, hheld, hdetached⟩ | ⟨haborted, hgone⟩ | ⟨rfl, haborted, hdeletes⟩
    · refine .inUse (.contending (a := a') ?_ hown')
      rw [run_concat]
      exact acquisition?_eq_some_iff.mpr ⟨call', hcall', hp'⟩
    · exact .inUse (isInUse_of_grant hcall hp hcall' hheld hdetached)
    · refine .aborted (List.mem_append_left _ (abort_mem_of_isAborted hcall haborted)) ⟨call', ?_, hgone⟩
      rw [run_concat]
      exact hcall'
    · refine .refused (refusedAt_of_deletion? a.client ?_ hn)
      simp [deletion?, hcall, haborted, LockCall.acquisition?, hp, hdeletes]
  · refine .inUse (.contending (a := a) ?_ hown)
    rw [run_concat]
    exact acquisition?_eq_some_iff.mpr ⟨call', hcall', hp⟩

/-- Whoever parts with a lock releases its node, leaves it to the background, or leaves it behind. -/
theorem isAccounted_of_parting {call : LockCall} (hcall : (run actions).calls[i]? = some call)
    (hheld : call.heldNode? = some n.path) (hparts : x.PartsWith i) :
    IsAccounted (actions ++ [x]) i n.path := by
  have hlock := (isFaithful_run hcall).lock?_eq hheld
  have hfound : ((run actions).calls[i]?).bind LockCall.lock? = some
      ⟨call.request.service, call.request.key, .shared call.request.client n.path⟩ := by
    rw [hcall]
    exact hlock
  have hout : (((run actions).calls[i]?).bind LockCall.outcome?).bind LockOutcome.lock? = some
      ⟨call.request.service, call.request.key, .shared call.request.client n.path⟩ := by
    rw [Option.bind_assoc]
    exact hfound
  have hdrop : ∀ l' : Locker, l' = ((run actions).drop
      ⟨call.request.service, call.request.key, .shared call.request.client n.path⟩).refresh →
      (run actions).act x = l' → IsAccounted (actions ++ [x]) i n.path := by
    rintro l' rfl hact
    refine .inUse (.dropped call.request.client ?_)
    rw [run_concat, hact]
    exact mem_cleanups_of_drop rfl
  rcases hparts with rfl | rfl | ⟨way, rfl⟩
  · refine hdrop _ rfl ?_
    simp only [act, abort, hout]
  · refine hdrop _ rfl ?_
    simp only [act, detach, hout]
  · cases way with
    | released =>
      refine .refused (refusedAt_of_deletion? call.request.client ?_ hn)
      simp only [deletion?, hfound]
      rfl
    | dropped =>
      refine hdrop _ rfl ?_
      simp only [act, hfound, partWith]
    | droppedOutside =>
      refine .droppedOutside (k := actions.length) (by simp) ?_
      rw [stateAt_length, heldNode?, hcall]
      exact hheld

/-- The node of a lock that stays is accounted for after an action. -/
theorem isAccounted_of_held (h : IsHeldOn actions i n.path) :
    IsAccounted (actions ++ [x]) i n.path := by
  obtain ⟨call, hcall, hheld⟩ := Option.bind_eq_some_iff.mp h.held
  by_cases hparts : x.PartsWith i
  · exact isAccounted_of_parting hn hcall hheld hparts
  · refine .inUse (.held ⟨?_, ?_, ?_⟩)
    · rw [run_concat]
      exact heldNode?_act (isSound_run actions) h.held x
    · intro k y hk hearly
      rcases Nat.lt_or_ge k actions.length with hlt | hge
      · rw [List.getElem?_append_left hlt] at hk
        rw [stateAt_concat x (Nat.le_of_lt hlt)] at hearly
        exact h.kept k y hk hearly
      · rw [List.getElem?_append_right hge] at hk
        cases List.mem_singleton.mp (List.mem_of_getElem? hk)
        exact hparts
    · intro call' hcall'
      rw [run_concat] at hcall'
      obtain ⟨own, hown, hcases⟩ := exists_call_act (isSound_run actions) x hcall
      rw [hown] at hcall'
      cases hcall'
      have hattended := h.attended call hcall
      rcases hcases with ⟨ch, step⟩ | rfl
      · rw [step.isDetached_eq fun hx => hparts (.inr (.inl hx)), hattended]
      · exact hattended

/-- What is accounted for and stays is accounted for after an action. -/
theorem IsAccounted.concat (h : IsAccounted actions i n.path) :
    IsAccounted (actions ++ [x]) i n.path := by
  cases h with
  | inUse use =>
    cases use with
    | contending contender own => exact isAccounted_of_contending hn contender own
    | held held => exact isAccounted_of_held hn held
    | dropped client pending =>
      rcases mem_cleanups_act x pending with hpending | rfl
      · refine .inUse (.dropped client ?_)
        rw [run_concat]
        exact hpending
      · refine .refused (refusedAt_of_deletion? client ?_ hn)
        simp [deletion?, pending]
  | refused refusal => exact .refused (refusal.concat x)
  | aborted action gone =>
    obtain ⟨call, hcall, hgone⟩ := gone
    obtain ⟨call', hcall', hcases⟩ := exists_call_act (isSound_run actions) x hcall
    refine .aborted (List.mem_append_left _ action) ⟨call', ?_, ?_⟩
    · rw [run_concat]
      exact hcall'
    · rcases hcases with ⟨ch, step⟩ | rfl
      · exact step.gone_of_gone hgone
      · exact hgone
  | @droppedOutside k action held =>
    have hlt := (List.getElem?_eq_some_iff.mp action).1
    refine .droppedOutside (k := k) ?_ ?_
    · rw [List.getElem?_append_left hlt]
      exact action
    · rw [stateAt_concat x (Nat.le_of_lt hlt)]
      exact held

end

/-- Every node of the tree has an origin where it is accounted for. -/
theorem exists_account (actions : List LockAction) (n : LockNode)
    (hn : n ∈ (run actions).coordination.coordinator.nodes) :
    ∃ i, IsOrigin actions n i ∧ IsAccounted actions i n.path := by
  induction actions using List.reverseRecOn generalizing n with
  | nil => cases hn
  | append_singleton actions x ih =>
    rw [run_concat] at hn
    rcases mem_nodes_act actions x hn with hold | ⟨i, horigin, a, ha, hown⟩
    · obtain ⟨i, horigin, haccount⟩ := ih n hold
      obtain ⟨ch, hch⟩ := coordination_act (isSound_run actions) x
      exact ⟨i, horigin.concat hch hn, haccount.concat hn⟩
    · refine ⟨i, horigin, .inUse (.contending (a := a) ?_ hown)⟩
      rw [run_concat]
      exact ha

theorem heldNode?_run_of_stateAt (hk : actions[k]? = some x)
    (hheld : (stateAt actions k).heldNode? i = some node) : (run actions).heldNode? i = some node := by
  have hlt := (List.getElem?_eq_some_iff.mp hk).1
  have hlate := heldNode?_stateAt_of_le (Nat.le_of_lt hlt) hheld
  rwa [stateAt_of_length_le (Nat.le_refl _)] at hlate

/-- Only the call that acquired a lock has its node deleted in the background. -/
theorem heldNode?_of_pending {client : Nat} (hcreated : CreatedAt actions k i node)
    (hpending : ⟨client, node⟩ ∈ (run actions).cleanups) : (run actions).heldNode? i = some node := by
  obtain ⟨owner, howner, hheld⟩ := (isSound_run actions).settled _ hpending
  obtain ⟨j, hj⟩ := List.mem_iff_getElem?.mp howner
  have hheld' : (run actions).heldNode? j = some node := by
    rw [heldNode?, hj]
    exact hheld
  have hend := hheld'
  rw [← stateAt_of_length_le (Nat.le_refl actions.length)] at hend
  obtain ⟨b, -, hcreated'⟩ := exists_created (node?_of_heldNode? hend)
  rw [hcreated.eq hcreated']
  exact hheld'

/-- The node of a call that ended without the lock is left only if its deletion was refused. -/
theorem IsAccounted.refused_of_ended (h : IsAccounted actions i node)
    (hcreated : CreatedAt actions k i node) (hcall : (run actions).calls[i]? = some call)
    {outcome : LockOutcome} (hended : call.outcome? = some outcome) (hlock : outcome.lock? = none) :
    ∃ k, RefusedAt actions k node := by
  have hnot : (run actions).heldNode? i ≠ some node := by
    rw [heldNode?, hcall, Option.bind_some, LockCall.heldNode?, LockCall.lock?, hended,
      Option.bind_some, hlock]
    simp
  cases h with
  | inUse use =>
    cases use with
    | contending contender own =>
      obtain ⟨call', hcall', hp⟩ := acquisition?_eq_some_iff.mp contender
      rw [hcall] at hcall'
      cases hcall'
      rw [LockCall.outcome?, hp] at hended
      cases hended
    | held held => exact absurd held.held hnot
    | dropped client pending => exact absurd (heldNode?_of_pending hcreated pending) hnot
  | refused refusal => exact ⟨_, refusal⟩
  | aborted action gone =>
    obtain ⟨call', hcall', hp⟩ := gone
    rw [hcall] at hcall'
    cases hcall'
    rw [LockCall.outcome?, hp] at hended
    cases hended
  | droppedOutside action held => exact absurd (heldNode?_run_of_stateAt action held) hnot

/-- The node of a lock that was parted with is left only as long as its deletion is to be done, or
if it was refused or could not be done in the background. -/
theorem IsAccounted.of_parted (h : IsAccounted actions i node) (hk : actions[k]? = some x)
    (hheld : (stateAt actions k).heldNode? i = some node) (hparts : x.PartsWith i) :
    (∃ client, ⟨client, node⟩ ∈ (run actions).cleanups) ∨ (∃ k, RefusedAt actions k node) ∨
      .part i .droppedOutside ∈ actions := by
  obtain ⟨call, hcall, hown⟩ := Option.bind_eq_some_iff.mp (heldNode?_run_of_stateAt hk hheld)
  cases h with
  | inUse use =>
    cases use with
    | contending contender own =>
      obtain ⟨call', hcall', hp⟩ := acquisition?_eq_some_iff.mp contender
      rw [hcall] at hcall'
      cases hcall'
      rw [LockCall.heldNode?_of_shared hp] at hown
      cases hown
    | held held => exact absurd hparts (held.kept k x hk hheld)
    | dropped client pending => exact .inl ⟨_, pending⟩
  | refused refusal => exact .inr (.inl ⟨_, refusal⟩)
  | aborted action gone =>
    obtain ⟨call', hcall', hp⟩ := gone
    rw [hcall] at hcall'
    cases hcall'
    have hnone : call.outcome? = none := by rw [LockCall.outcome?, hp]
    rw [LockCall.heldNode?_of_outcome hnone] at hown
    cases hown
  | droppedOutside action held => exact .inr (.inr (List.mem_of_getElem? action))

/-- Whatever is in the tree was created by a call and is accounted for: it is in use, its deletion was
refused while the session was not connected, or the call was aborted or its lock dropped where
nothing can run in the background. In particular, a call that ended without the lock left it only if
its deletion was refused, and so did a lock that was parted with, unless its deletion is still to be
done. In any case the expiry of the session takes it. -/
theorem nodes_accounted {actions : List LockAction} {n : LockNode}
    (hn : n ∈ (run actions).coordination.coordinator.nodes) :
    ∃ i call, (∃ k, CreatedAt actions k i n.path) ∧ (run actions).calls[i]? = some call ∧
      IsAccounted actions i n.path ∧
      (∀ outcome, call.outcome? = some outcome → outcome.lock? = none →
        ∃ k, RefusedAt actions k n.path) ∧
      (∀ k x, actions[k]? = some x → (stateAt actions k).heldNode? i = some n.path → x.PartsWith i →
        (∃ client, ⟨client, n.path⟩ ∈ (run actions).cleanups) ∨ (∃ k, RefusedAt actions k n.path) ∨
          .part i .droppedOutside ∈ actions) ∧
      ∀ client, (run actions).coordination.sessionOf client =
          (run actions).coordination.sessionOf call.request.client →
        (run (actions ++ [.undergo client .expired])).coordination.coordinator.hasNode n.path =
          false := by
  obtain ⟨i, ⟨⟨b, hcreated⟩, call, s, hcall, -, -⟩, haccount⟩ := exists_account actions n hn
  refine ⟨i, call, ⟨b, hcreated⟩, hcall, haccount, ?_, ?_, ?_⟩
  · intro outcome hended hlock
    exact haccount.refused_of_ended hcreated hcall hended hlock
  · intro k x hk hheld hparts
    exact haccount.of_parted hk hheld hparts
  · intro client hclient
    rw [run_concat]
    exact gone_of_expired hcreated hcall hclient

/-- A lock is dropped while its session is not connected. Its node is to be deleted in the background
before the connection is back. -/
def droppedOfflineRun : List LockAction :=
  [.openSession, .start ⟨0, "jobs", "nightly", .ofSeconds 60⟩] ++
    List.replicate 4 (.task (.call 0)) ++
    [.undergo 0 .disconnected, .part 0 .dropped,
      .task (.cleanup ⟨0, "/jobs/nightly/lock-0000000000"⟩), .undergo 0 .reconnected]

theorem nodes_accounted_droppedOfflineRun :
    ⟨"/jobs/nightly/lock-0000000000", 1⟩ ∈ (run droppedOfflineRun).coordination.coordinator.nodes ∧
      ∃ i, IsAccounted droppedOfflineRun i "/jobs/nightly/lock-0000000000" := by
  have hn : ⟨"/jobs/nightly/lock-0000000000", 1⟩ ∈
      (run droppedOfflineRun).coordination.coordinator.nodes := by
    decide +kernel
  obtain ⟨i, call, -, -, haccount, -⟩ := nodes_accounted hn
  exact ⟨hn, i, haccount⟩

/-- A node can stay that is of no use to anybody, even once its session is connected again. -/
theorem node_left_behind :
    (run droppedOfflineRun).coordination.IsConnected 0 ∧
      ⟨"/jobs/nightly/lock-0000000000", 1⟩ ∈ (run droppedOfflineRun).coordination.coordinator.nodes ∧
      ∀ i, ¬ IsInUse droppedOfflineRun i "/jobs/nightly/lock-0000000000" := by
  have hlength : (run droppedOfflineRun).calls.length = 1 := by decide +kernel
  refine ⟨?_, by decide +kernel, ?_⟩
  · have hconnected : ((run droppedOfflineRun).coordination.session? 0).map Session.isConnected =
        some true := by
      decide +kernel
    exact Option.map_eq_some_iff.mp hconnected
  · intro i huse
    cases huse with
    | contending contender own =>
      obtain ⟨call, hcall, hp⟩ := acquisition?_eq_some_iff.mp contender
      have hlt := (List.getElem?_eq_some_iff.mp hcall).1
      rw [hlength, Nat.lt_one_iff] at hlt
      subst hlt
      have hnone : ((run droppedOfflineRun).acquisition? 0).isNone = true := by decide +kernel
      rw [contender] at hnone
      cases hnone
    | held held =>
      obtain ⟨call, hcall, -⟩ := Option.bind_eq_some_iff.mp held.held
      have hlt := (List.getElem?_eq_some_iff.mp hcall).1
      rw [hlength, Nat.lt_one_iff] at hlt
      subst hlt
      exact held.kept 7 (.part 0 .dropped) rfl (by decide +kernel) (.inr (.inr ⟨.dropped, rfl⟩))
    | dropped client pending =>
      have hnone : (run droppedOfflineRun).cleanups = [] := by decide +kernel
      rw [hnone] at pending
      cases pending

end Locker

end DurableQueue
