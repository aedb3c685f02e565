import DurableQueue.Proofs.Lock.CallInvariant
import Mathlib.Data.List.Induction

/-!
What a locker keeps through every run.

`Locker.Effect` says what one action does: something happens to one call, a call is added, or the
service changes from outside. `Locker.IsSound` says that the service and all calls are sound, that
no two calls have the same node, and that only nodes of acquired locks are deleted in the
background. Every action keeps it (`isSound_act`), so every run does (`isSound_run`).
-/

namespace DurableQueue.Locker

open Acquisition Trial

/-- What a locker keeps. -/
structure IsSound (l : Locker) : Prop where
  shared : l.backend = .shared
  service : l.coordination.IsSound
  calls : ∀ call ∈ l.calls, call.IsSound l.coordination
  apart : ∀ (i j : Nat) (call call' : LockCall) (node : String), l.calls[i]? = some call →
    l.calls[j]? = some call' → call.node? = some node → call'.node? = some node → i = j
  settled : ∀ k ∈ l.cleanups, ∃ call ∈ l.calls, call.heldNode? = some k.node

/-- What an action does to a locker. -/
inductive Effect (l : Locker) (x : LockAction) (l' : Locker) : Prop where
  | call {i : Nat} {call call' : LockCall} {ch : ServiceChange} (found : l.calls[i]? = some call)
    (step : call.Step l.now l.coordination i x call' ch) (calls : l'.calls = l.calls.set i call')
    (coordination : l'.coordination = l.coordination.after ch) (backend : l'.backend = l.backend)
    (cleanups : ∀ k ∈ l'.cleanups, k ∈ l.cleanups ∨ call'.heldNode? = some k.node)
  | started {r : LockRequest} (attached : r.client < l.coordination.clients.length)
    (calls : l'.calls = l.calls ++ [.ofRequest r]) (coordination : l'.coordination = l.coordination)
    (backend : l'.backend = l.backend) (cleanups : l'.cleanups = l.cleanups)
  /-- A node that is removed from outside is one on which a lock rested. -/
  | outside {ch : ServiceChange} (calls : l'.calls = l.calls)
    (coordination : l'.coordination = l.coordination.after ch) (backend : l'.backend = l.backend)
    (cleanups : ∀ k ∈ l'.cleanups, k ∈ l.cleanups ∨ ∃ call ∈ l.calls, call.heldNode? = some k.node)
    (allows : l.coordination.Allows ch)
    (creates : ∀ identity directory, ch ≠ .node identity directory)
    (removes : ∀ path, ch = .removal path → ∃ call ∈ l.calls, call.heldNode? = some path)

variable {l l' : Locker} {x : LockAction}

namespace Effect

theorem refresh (h : Effect l x l') : Effect l x l'.refresh := by
  cases h with
  | call found step calls coordination backend cleanups =>
    exact .call found step calls coordination backend cleanups
  | started attached calls coordination backend cleanups =>
    exact .started attached calls coordination backend cleanups
  | outside calls coordination backend cleanups allows creates removes =>
    exact .outside calls coordination backend cleanups allows creates removes

/-- Nothing happens that matters to the service and the calls. -/
theorem of_same (hcalls : l'.calls = l.calls) (hcoordination : l'.coordination = l.coordination)
    (hbackend : l'.backend = l.backend) (hcleanups : l'.cleanups = l.cleanups) : Effect l x l' := by
  refine @outside l x l' .none hcalls hcoordination hbackend ?_ trivial (by simp) (by simp)
  intro k hk
  rw [hcleanups] at hk
  exact .inl hk

theorem of_proceed {i : Nat} {call : LockCall} {progress : LockProgress} {ch : ServiceChange}
    (found : l.calls[i]? = some call)
    (step : call.Step l.now l.coordination i x { call with progress } ch) :
    Effect l x (({ l with coordination := l.coordination.after ch } : Locker).proceed i call progress) := by
  have hset : (({ l with coordination := l.coordination.after ch } : Locker).setProgress i progress).calls =
      l.calls.set i { call with progress } := calls_setProgress found
  rcases proceed_cases { l with coordination := l.coordination.after ch } i call progress with
    heq | ⟨lock, hlock, heq⟩
  · rw [heq]
    exact .call found step hset rfl rfl fun k hk => .inl hk
  · rw [heq]
    refine .call found step ?_ ?_ ?_ ?_
    · rw [calls_drop, hset]
    · rw [coordination_drop]
      rfl
    · rw [backend_drop]
      rfl
    · intro k hk
      have hlock' : ({ call with progress } : LockCall).lock? = some lock := by
        rw [hlock]
        rfl
      have hmem := mem_cleanups_drop hk hlock'
      exact hmem

/-- Deleting the node of a lock, from wherever that is done. -/
theorem of_deletion {client : Nat} {node : String} (h : l.IsSound)
    (howner : ∃ call ∈ l.calls, call.heldNode? = some node) (hcalls : l'.calls = l.calls)
    (hcoordination : l'.coordination = (l.coordination.delete client node).2)
    (hbackend : l'.backend = l.backend)
    (hcleanups : ∀ k ∈ l'.cleanups,
      k ∈ l.cleanups ∨ ∃ call ∈ l.calls, call.heldNode? = some k.node) : Effect l x l' := by
  rw [Coordination.delete_eq_after h.service.faultless] at hcoordination
  rcases l.coordination.deletion_eq client node with hch | hch
  · rw [hch] at hcoordination
    exact .outside hcalls hcoordination hbackend hcleanups trivial (by simp) (by simp)
  · rw [hch] at hcoordination
    refine .outside hcalls hcoordination hbackend hcleanups trivial (by simp) ?_
    intro path hpath
    cases hpath
    exact howner

end Effect

theorem effect_stepCall? {i : Nat} (h : l.IsSound) (hs : l.stepCall? i = some l') :
    Effect l (.task (.call i)) l' := by
  unfold stepCall? at hs
  simp only [Option.bind_eq_bind, Option.bind_eq_some_iff] at hs
  obtain ⟨call, hcall, hs⟩ := hs
  have hsound := h.calls call (List.mem_of_getElem? hcall)
  cases hprogress : call.progress with
  | fresh =>
    cases haborted : call.isAborted with
    | true =>
      simp only [haborted, hprogress] at hs
      cases hs
      exact .call hcall (.gone haborted (by simp [LockCall.outcome?, hprogress])) (calls_setProgress hcall)
        rfl rfl fun k hk => .inl hk
    | false =>
      simp only [haborted, hprogress, h.shared] at hs
      cases hs
      exact .of_proceed hcall (.begun hprogress)
  | inProcess w => exact absurd hprogress (hsound.elsewhere w)
  | shared a =>
    cases haborted : call.isAborted with
    | true =>
      simp only [haborted, hprogress] at hs
      cases hs
      exact .call hcall (.gone haborted (by simp [LockCall.outcome?, hprogress])) (calls_setProgress hcall)
        rfl rfl fun k hk => .inl hk
    | false =>
      simp only [haborted, hprogress, Option.bind_eq_some_iff, Prod.exists] at hs
      obtain ⟨a', c', hstep, heq⟩ := hs
      cases heq
      obtain ⟨ha, -⟩ := hsound.contender a hprogress
      obtain ⟨ch, hmove, rfl⟩ := move_of_step? h.service.faultless ha.heard ha.staged hstep
      exact .of_proceed hcall (.moved (.inl ⟨rfl, haborted⟩) hprogress hmove)
  | «over» outcome =>
    simp only [hprogress] at hs
    cases hs
  | gone =>
    simp only [hprogress] at hs
    cases hs

theorem effect_task {t : LockTask} (h : l.IsSound) (hs : step? t l = some l') :
    Effect l (.task t) l' := by
  cases t with
  | call i => exact effect_stepCall? h hs
  | watch i w =>
    simp only [step?, acquisition?, Option.bind_eq_bind, Option.bind_eq_some_iff] at hs
    obtain ⟨a, ⟨call, hcall, ha⟩, a', hhears, heq⟩ := hs
    cases heq
    exact .call hcall (.heardWatch (LockCall.progress_of_acquisition? ha) hhears)
      (calls_setProgress hcall) rfl rfl fun k hk => .inl hk
  | events i =>
    simp only [step?, acquisition?, Option.bind_eq_bind, Option.bind_eq_some_iff] at hs
    obtain ⟨a, ⟨call, hcall, ha⟩, a', hhears, heq⟩ := hs
    cases heq
    exact .call hcall (.heardEvent (LockCall.progress_of_acquisition? ha) hhears)
      (calls_setProgress hcall) rfl rfl fun k hk => .inl hk
  | cleanup k =>
    simp only [step?] at hs
    split at hs
    · rename_i hcontains
      cases hs
      have howner := h.settled k (List.contains_iff_mem.mp hcontains)
      refine .of_deletion h howner rfl rfl rfl ?_
      intro k' hk'
      exact .inl (List.mem_of_mem_erase hk')
    · cases hs

theorem exists_of_lock? {i : Nat} {lock : GlobalLock}
    (h : (l.calls[i]?).bind LockCall.lock? = some lock) :
    ∃ call ∈ l.calls, call.lock? = some lock := by
  obtain ⟨call, hcall, hlock⟩ := Option.bind_eq_some_iff.mp h
  exact ⟨call, List.mem_of_getElem? hcall, hlock⟩

theorem effect_drop {lock : GlobalLock} {call : LockCall} (hmem : call ∈ l.calls)
    (hlock : call.lock? = some lock) : Effect l x (l.drop lock) := by
  refine @Effect.outside l x (l.drop lock) .none (calls_drop l lock) (coordination_drop l lock)
    (backend_drop l lock) ?_ trivial (by simp) (by simp)
  intro k hk
  exact (mem_cleanups_drop hk hlock).imp id fun hheld => ⟨call, hmem, hheld⟩

theorem effect_partWith {lock : GlobalLock} {call : LockCall} (h : l.IsSound)
    (hmem : call ∈ l.calls) (hlock : call.lock? = some lock) (way : LockParting) :
    Effect l x (l.partWith lock way) := by
  cases way with
  | released =>
    unfold partWith release
    cases hhold : lock.hold with
    | inProcess path => exact .of_same rfl rfl rfl rfl
    | shared client node =>
      have hheld : call.heldNode? = some node := by
        rw [LockCall.heldNode?, hlock, Option.bind_some, hhold]
      exact .of_deletion h ⟨call, hmem, hheld⟩ rfl rfl rfl fun k hk => .inl hk
  | dropped => exact (effect_drop hmem hlock).refresh
  | droppedOutside =>
    unfold partWith dropOutside
    cases hhold : lock.hold with
    | inProcess path => exact .of_same rfl rfl rfl rfl
    | shared client node => exact .of_same rfl rfl rfl rfl

theorem effect_isFree (h : l.IsSound) (client : Nat) (service key : String) :
    Effect l x (l.isFree client service key).2 := by
  unfold isFree
  cases lockDirectory service key with
  | error e => exact .of_same rfl rfl rfl rfl
  | ok directory =>
    simp only [h.shared]
    rcases Coordination.children_cases h.service.faultless client directory with
      ⟨-, heq⟩ | ⟨-, heq⟩
    · rw [heq]
      exact .of_same rfl rfl h.shared.symm rfl
    · rw [heq]
      exact .of_same rfl rfl h.shared.symm rfl

theorem effect_timeOut? {i : Nat} (hs : l.timeOut? i = some l') : Effect l (.timeOut i) l' := by
  simp only [timeOut?, Option.bind_eq_bind, Option.bind_eq_some_iff] at hs
  obtain ⟨call, hcall, a, ha, a', htime, hs⟩ := hs
  have hprogress := LockCall.progress_of_acquisition? ha
  obtain ⟨hstage, hdue, rfl⟩ := timeOut?_eq_some htime
  split at hs
  · cases hs
  · cases hs
    exact .call hcall (.moved (.inr ⟨rfl, rfl⟩) hprogress (.timedOut hstage hdue))
      (calls_setProgress hcall) rfl rfl fun k hk => .inl hk

/-- A mark on a call, whether or not there is such a call. -/
theorem effect_modify {i : Nat} {f : LockCall → LockCall}
    (hstep : ∀ call : LockCall, call.Step l.now l.coordination i x (f call) .none) :
    Effect l x { l with calls := l.calls.modify i f } := by
  cases hcall : l.calls[i]? with
  | none =>
    have hlen := List.getElem?_eq_none_iff.mp hcall
    exact .of_same (List.modify_eq_self hlen) rfl rfl rfl
  | some call =>
    exact .call hcall (hstep call) (modify_eq_set_of_getElem? hcall f) rfl rfl fun k hk => .inl hk

theorem effect_abort (i : Nat) : Effect l (.abort i) (l.abort i) := by
  unfold abort
  rw [show ((l.calls[i]?).bind LockCall.outcome?).bind LockOutcome.lock? =
    (l.calls[i]?).bind LockCall.lock? from Option.bind_assoc _ _ _]
  cases hlock : (l.calls[i]?).bind LockCall.lock? with
  | none => exact (effect_modify fun call => .aborted).refresh
  | some lock =>
    obtain ⟨call, hmem, hcall⟩ := exists_of_lock? hlock
    exact (effect_drop hmem hcall).refresh

theorem effect_detach (i : Nat) : Effect l (.detach i) (l.detach i) := by
  unfold detach
  rw [show ((l.calls[i]?).bind LockCall.outcome?).bind LockOutcome.lock? =
    (l.calls[i]?).bind LockCall.lock? from Option.bind_assoc _ _ _]
  cases hlock : (l.calls[i]?).bind LockCall.lock? with
  | none => exact (effect_modify fun call => .detached).refresh
  | some lock =>
    obtain ⟨call, hmem, hcall⟩ := exists_of_lock? hlock
    exact (effect_drop hmem hcall).refresh

/-- Every action is one of the effects. -/
theorem effect_act (h : l.IsSound) (x : LockAction) : Effect l x (l.act x) := by
  cases x with
  | task t =>
    show Effect l _ (((step? t l).map refresh).getD l)
    cases hs : step? t l with
    | none => exact .of_same rfl rfl rfl rfl
    | some l' => exact (effect_task h hs).refresh
  | timeOut i =>
    show Effect l _ (((l.timeOut? i).map refresh).getD l)
    cases hs : l.timeOut? i with
    | none => exact .of_same rfl rfl rfl rfl
    | some l' => exact (effect_timeOut? hs).refresh
  | start r =>
    show Effect l _ (if r.client < l.coordination.clients.length then (l.start r).2 else l)
    split
    · rename_i hr
      exact .started hr rfl rfl rfl rfl
    · exact .of_same rfl rfl rfl rfl
  | abort i => exact effect_abort i
  | detach i => exact effect_detach i
  | part i way =>
    cases hlock : (l.calls[i]?).bind LockCall.lock? with
    | none =>
      have hact : l.act (.part i way) = l := by simp only [act, hlock]
      rw [hact]
      exact .of_same rfl rfl rfl rfl
    | some lock =>
      have hact : l.act (.part i way) = l.partWith lock way := by simp only [act, hlock]
      obtain ⟨call, hmem, hcall⟩ := exists_of_lock? hlock
      rw [hact]
      exact effect_partWith h hmem hcall way
  | isFree client service key => exact effect_isFree h client service key
  | openSession =>
    exact @Effect.outside _ _ _ .opening rfl rfl rfl (fun k hk => .inl hk) trivial (by simp) (by simp)
  | clone client =>
    show Effect l _ (if client < l.coordination.clients.length then
      { l with coordination := (l.coordination.clone client).2 }.refresh else l)
    split
    · rename_i hclient
      exact @Effect.outside _ _ _ (.cloning client) rfl rfl rfl (fun k hk => .inl hk) hclient (by simp)
        (by simp)
    · exact .of_same rfl rfl rfl rfl
  | undergo client change =>
    exact @Effect.outside _ _ _ (.session change (l.coordination.sessionOf client)) rfl rfl rfl
      (fun k hk => .inl hk) trivial (by simp) (by simp)
  | pass millis => exact .of_same rfl rfl rfl rfl

theorem IsSound.node_lt (h : l.IsSound) {call : LockCall} {directory : String} {n : Nat}
    (hmem : call ∈ l.calls) (hnode : call.node? = some (nodePath directory n)) :
    n < l.coordination.coordinator.nextNumber directory := by
  obtain ⟨d, m, -, hpath, hlt⟩ := (h.calls call hmem).numbered_node hnode
  obtain ⟨rfl, rfl⟩ := nodePath_injective hpath
  exact hlt

/-- A step of one call leaves the others apart from it. -/
theorem IsSound.apart_of_step {i j : Nat} {call call' other : LockCall} {ch : ServiceChange}
    {node : String} (h : l.IsSound) (found : l.calls[i]? = some call)
    (step : call.Step l.now l.coordination i x call' ch) (hj : l.calls[j]? = some other)
    (hnode : call'.node? = some node) (hother : other.node? = some node) : i = j := by
  rcases step.node?_cases (h.calls call (List.mem_of_getElem? found)) with
    ⟨identity, directory, -, -, hnew⟩ | hsame | hnone
  · rw [hnew] at hnode
    cases hnode
    have hlt := h.node_lt (List.mem_of_getElem? hj) hother
    exact absurd hlt (Nat.lt_irrefl _)
  · rw [hsame] at hnode
    exact h.apart i j call other node found hj hnode hother
  · rw [hnone] at hnode
    cases hnode

theorem isSound_empty : (empty .shared).IsSound where
  shared := rfl
  service := .empty
  calls := by
    intro call hmem
    cases hmem
  apart := by
    intro i j call call' node hi
    cases hi
  settled := by
    intro k hk
    cases hk

theorem getElem?_set_cases {calls : List LockCall} {i j : Nat} {call other : LockCall}
    (h : (calls.set i call)[j]? = some other) :
    (i = j ∧ other = call) ∨ (i ≠ j ∧ calls[j]? = some other) := by
  by_cases hij : i = j
  · subst hij
    have hlt : i < (calls.set i call).length := (List.getElem?_eq_some_iff.mp h).1
    rw [List.length_set] at hlt
    rw [List.getElem?_set_self hlt] at h
    exact .inl ⟨rfl, (Option.some.inj h).symm⟩
  · rw [List.getElem?_set_ne hij] at h
    exact .inr ⟨hij, h⟩

section

variable {i : Nat} {call call' : LockCall} {ch : ServiceChange}

theorem apart_of_call (h : l.IsSound) (found : l.calls[i]? = some call)
    (step : call.Step l.now l.coordination i x call' ch) (j k : Nat) (one other : LockCall)
    (node : String) (hj : (l.calls.set i call')[j]? = some one)
    (hk : (l.calls.set i call')[k]? = some other) (hone : one.node? = some node)
    (hother : other.node? = some node) : j = k := by
  rcases getElem?_set_cases hj with ⟨rfl, rfl⟩ | ⟨-, hj'⟩
  · rcases getElem?_set_cases hk with ⟨rfl, -⟩ | ⟨-, hk'⟩
    · rfl
    · exact h.apart_of_step found step hk' hone hother
  · rcases getElem?_set_cases hk with ⟨rfl, rfl⟩ | ⟨-, hk'⟩
    · exact (h.apart_of_step found step hj' hother hone).symm
    · exact h.apart j k one other node hj' hk' hone hother

theorem settled_of_call (h : l.IsSound) (found : l.calls[i]? = some call)
    (step : call.Step l.now l.coordination i x call' ch) {k : LockCleanup} (hk : k ∈ l.cleanups) :
    ∃ owner ∈ l.calls.set i call', owner.heldNode? = some k.node := by
  obtain ⟨owner, hmem, hheld⟩ := h.settled k hk
  have hlt := (List.getElem?_eq_some_iff.mp found).1
  obtain ⟨j, hj⟩ := List.mem_iff_getElem?.mp hmem
  by_cases hij : i = j
  · subst hij
    rw [found] at hj
    cases hj
    exact ⟨call', List.mem_set hlt call', step.heldNode?_eq hheld⟩
  · have hj' : (l.calls.set i call')[j]? = some owner := by
      rw [List.getElem?_set_ne hij]
      exact hj
    exact ⟨owner, List.mem_of_getElem? hj', hheld⟩

theorem isSound_of_call (h : l.IsSound) (found : l.calls[i]? = some call)
    (step : call.Step l.now l.coordination i x call' ch) (calls : l'.calls = l.calls.set i call')
    (coordination : l'.coordination = l.coordination.after ch) (backend : l'.backend = l.backend)
    (cleanups : ∀ k ∈ l'.cleanups, k ∈ l.cleanups ∨ call'.heldNode? = some k.node) :
    l'.IsSound where
  shared := backend.trans h.shared
  service := by
    rw [coordination]
    exact h.service.after step.allows
  calls := by
    intro other hmem
    rw [coordination]
    rw [calls] at hmem
    have hcall := h.calls call (List.mem_of_getElem? found)
    obtain ⟨j, hj⟩ := List.mem_iff_getElem?.mp hmem
    rcases getElem?_set_cases hj with ⟨-, rfl⟩ | ⟨hij, hj⟩
    · exact hcall.of_step h.service step
    · refine (h.calls other (List.mem_of_getElem? hj)).after h.service ?_
      rintro path rfl hnode
      exact absurd (h.apart i j call other path found hj (step.node?_of_removal hcall) hnode) hij
  apart := by
    rw [calls]
    exact apart_of_call h found step
  settled := by
    intro k hk
    rw [calls]
    rcases cleanups k hk with hk | hk
    · exact settled_of_call h found step hk
    · exact ⟨call', List.mem_set (List.getElem?_eq_some_iff.mp found).1 call', hk⟩

end

theorem isSound_of_started {r : LockRequest} (h : l.IsSound)
    (attached : r.client < l.coordination.clients.length)
    (calls : l'.calls = l.calls ++ [.ofRequest r]) (coordination : l'.coordination = l.coordination)
    (backend : l'.backend = l.backend) (cleanups : l'.cleanups = l.cleanups) : l'.IsSound where
  shared := backend.trans h.shared
  service := by
    rw [coordination]
    exact h.service
  calls := by
    intro call hmem
    rw [coordination]
    rw [calls] at hmem
    rcases List.mem_append.mp hmem with hmem | hmem
    · exact h.calls call hmem
    · rw [List.mem_singleton.mp hmem]
      exact .ofRequest attached
  apart := by
    have hold : ∀ (j : Nat) (call : LockCall) (node : String), l'.calls[j]? = some call →
        call.node? = some node → l.calls[j]? = some call := by
      intro j call node hj hnode
      rw [calls, List.getElem?_append] at hj
      split at hj
      · exact hj
      · rw [List.mem_singleton.mp (List.mem_of_getElem? hj)] at hnode
        cases hnode
    intro j k one other node hj hk hone hother
    exact h.apart j k one other node (hold j one node hj hone) (hold k other node hk hother) hone
      hother
  settled := by
    intro k hk
    rw [cleanups] at hk
    rw [calls]
    obtain ⟨owner, hmem, hheld⟩ := h.settled k hk
    exact ⟨owner, List.mem_append_left _ hmem, hheld⟩

theorem isSound_of_outside {ch : ServiceChange} (h : l.IsSound) (calls : l'.calls = l.calls)
    (coordination : l'.coordination = l.coordination.after ch) (backend : l'.backend = l.backend)
    (cleanups : ∀ k ∈ l'.cleanups, k ∈ l.cleanups ∨ ∃ call ∈ l.calls, call.heldNode? = some k.node)
    (allows : l.coordination.Allows ch)
    (removes : ∀ path, ch = .removal path → ∃ call ∈ l.calls, call.heldNode? = some path) :
    l'.IsSound where
  shared := backend.trans h.shared
  service := by
    rw [coordination]
    exact h.service.after allows
  calls := by
    intro call hmem
    rw [coordination]
    rw [calls] at hmem
    refine (h.calls call hmem).after h.service fun path hch hnode => ?_
    -- the only call with this node is the one that acquired a lock by it
    obtain ⟨owner, howner, hheld⟩ := removes path hch
    obtain ⟨i, hi⟩ := List.mem_iff_getElem?.mp hmem
    obtain ⟨j, hj⟩ := List.mem_iff_getElem?.mp howner
    have hij := h.apart i j call owner path hi hj hnode (LockCall.node?_of_heldNode? hheld)
    rw [hij, hj] at hi
    cases hi
    exact hheld
  apart := by
    rw [calls]
    exact h.apart
  settled := by
    intro k hk
    rw [calls]
    rcases cleanups k hk with hk | hk
    · exact h.settled k hk
    · exact hk

/-- Every action leaves a locker sound. -/
theorem isSound_act (h : l.IsSound) (x : LockAction) : (l.act x).IsSound := by
  cases effect_act h x with
  | call found step calls coordination backend cleanups =>
    exact isSound_of_call h found step calls coordination backend cleanups
  | started attached calls coordination backend cleanups =>
    exact isSound_of_started h attached calls coordination backend cleanups
  | outside calls coordination backend cleanups allows creates removes =>
    exact isSound_of_outside h calls coordination backend cleanups allows removes

theorem isSound_run (actions : List LockAction) : (run actions).IsSound := by
  induction actions using List.reverseRecOn with
  | nil => exact isSound_empty
  | append_singleton actions x ih =>
    rw [run_concat]
    exact isSound_act ih x

end DurableQueue.Locker
