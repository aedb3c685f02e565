import DurableQueue.Proofs.Lock.RunInvariant

/-!
What one action does to one contender, and what runs leave as it was.

`Locker.ContenderStep` says what an action does to the contender of one call, whoever acts. Along a
run nodes are owned with numbers that are new (`number_of_created`), locks stay acquired, and a path
whose number was given out does not come back to the tree (`hasNode_stateAt_of_le`).
-/

namespace DurableQueue.Locker

open Acquisition

/-- The node of a call. -/
def node? (l : Locker) (i : Nat) : Option String := (l.calls[i]?).bind LockCall.node?

/-- The node on which the lock rests that a call acquired. -/
def heldNode? (l : Locker) (i : Nat) : Option String := (l.calls[i]?).bind LockCall.heldNode?

/-- Whether a call asks for the lock of a directory. -/
def IsFor (l : Locker) (i : Nat) (directory : String) : Prop :=
  ∃ call, l.calls[i]? = some call ∧ call.IsFor directory

/-- A run up to the action of a place. -/
def stateAt (actions : List LockAction) (k : Nat) : Locker := run (actions.take k)

/-- What an action does to the contender of a call. -/
inductive ContenderStep (l : Locker) (i : Nat) (x : LockAction) (a' : Acquisition) :
    ServiceChange → Prop where
  | begun {client : Nat} {directory : String} {deadline : Nat}
    (begins : a' = .begin_ l.coordination client directory deadline) : ContenderStep l i x a' .none
  /-- Others act. -/
  | kept {ch : ServiceChange} (before : l.acquisition? i = some a')
    (removes : ∀ path, ch = .removal path → a'.node? ≠ some path) : ContenderStep l i x a' ch
  | moved {a : Acquisition} {ch : ServiceChange} (before : l.acquisition? i = some a)
    (action : x = .task (.call i) ∨ a'.stage = .withdrawing)
    (move : Move l.now l.coordination a a' ch) : ContenderStep l i x a' ch
  | heardEvent {a : Acquisition} (before : l.acquisition? i = some a)
    (hears : a.hearEvent? l.coordination = some a') : ContenderStep l i x a' .none
  | heardWatch {a : Acquisition} {w : Nat} (before : l.acquisition? i = some a)
    (hears : a.hearWatch? w l.coordination = some a') : ContenderStep l i x a' .none

variable {l l' : Locker} {x : LockAction} {i : Nat} {a : Acquisition} {node : String}

theorem acquisition?_eq_some_iff :
    l.acquisition? i = some a ↔ ∃ call, l.calls[i]? = some call ∧ call.progress = .shared a := by
  simp only [acquisition?, Option.bind_eq_bind, Option.bind_eq_some_iff]
  constructor
  · rintro ⟨call, hcall, ha⟩
    exact ⟨call, hcall, LockCall.progress_of_acquisition? ha⟩
  · rintro ⟨call, hcall, hprogress⟩
    exact ⟨call, hcall, by rw [LockCall.acquisition?, hprogress]⟩

theorem IsSound.contender (h : l.IsSound) (ha : l.acquisition? i = some a) :
    a.IsSound l.coordination := by
  obtain ⟨call, hcall, hprogress⟩ := acquisition?_eq_some_iff.mp ha
  exact ((h.calls call (List.mem_of_getElem? hcall)).contender a hprogress).1

/-- The step of a call is one of its contender. -/
theorem contenderStep_of_step {call call' : LockCall} {a' : Acquisition} {ch : ServiceChange}
    (h : l.IsSound) (found : l.calls[i]? = some call)
    (step : call.Step l.now l.coordination i x call' ch) (ha : call'.progress = .shared a') :
    ContenderStep l i x a' ch := by
  have hbefore : ∀ a, call.progress = .shared a → l.acquisition? i = some a := fun a hp =>
    acquisition?_eq_some_iff.mpr ⟨call, found, hp⟩
  cases step with
  | begun progress =>
    rcases LockCall.begin_cases call.request l.now l.coordination with
      ⟨directory, deadline, -, heq⟩ | ⟨outcome, heq, -⟩
    · cases heq.symm.trans ha
      exact .begun rfl
    · cases heq.symm.trans ha
  | gone aborted outcome => cases ha
  | @moved _ a b _ action progress move =>
    have hsound := (h.calls call (List.mem_of_getElem? found)).contender a progress
    have hstaged := move.isStaged hsound.1.heard hsound.1.staged
    rcases LockCall.ofAcquisition_cases call.request hstaged with ⟨node, -, -, heq⟩ | heq | heq
    · cases heq.symm.trans ha
    · cases heq.symm.trans ha
    · cases heq.symm.trans ha
      exact .moved (hbefore a progress) (action.imp And.left And.right) move
  | heardEvent progress hears =>
    cases ha
    exact .heardEvent (hbefore _ progress) hears
  | heardWatch progress hears =>
    cases ha
    exact .heardWatch (hbefore _ progress) hears
  | aborted => exact .kept (hbefore a' ha) (by simp)
  | detached => exact .kept (hbefore a' ha) (by simp)

/-- What an action does to one call: a step of it, nothing, or its beginning. What others remove is
no node of it, unless it is the one of a lock that it acquired. -/
theorem call_act {call' : LockCall} (h : l.IsSound) (x : LockAction)
    (hcall' : (l.act x).calls[i]? = some call') :
    ∃ ch, (l.act x).coordination = l.coordination.after ch ∧
      ((∃ call, l.calls[i]? = some call ∧ call.Step l.now l.coordination i x call' ch) ∨
        (l.calls[i]? = some call' ∧ ∀ path, ch = .removal path → call'.node? = some path →
          call'.heldNode? = some path) ∨
        (l.calls[i]? = none ∧ ∃ r, call' = .ofRequest r)) := by
  cases effect_act h x with
  | @call j call call'' ch found step calls coordination backend cleanups =>
    refine ⟨ch, coordination, ?_⟩
    rw [calls] at hcall'
    rcases getElem?_set_cases hcall' with ⟨rfl, rfl⟩ | ⟨hij, hi⟩
    · exact .inl ⟨call, found, step⟩
    · refine .inr (.inl ⟨hi, ?_⟩)
      rintro path rfl hpath
      have hcall := h.calls call (List.mem_of_getElem? found)
      exact absurd (h.apart j i call call' path found hi (step.node?_of_removal hcall) hpath) hij
  | started attached calls coordination backend cleanups =>
    refine ⟨.none, coordination, .inr ?_⟩
    rw [calls, List.getElem?_append] at hcall'
    split at hcall'
    · exact .inl ⟨hcall', by simp⟩
    · rename_i hlen
      right
      exact ⟨List.getElem?_eq_none_iff.mpr (Nat.le_of_not_lt hlen), _,
        List.mem_singleton.mp (List.mem_of_getElem? hcall')⟩
  | @outside ch calls coordination backend cleanups allows creates removes =>
    rw [calls] at hcall'
    refine ⟨ch, coordination, .inr (.inl ⟨hcall', fun path hch hpath => ?_⟩)⟩
    obtain ⟨owner, howner, hheld⟩ := removes path hch
    obtain ⟨j, hj⟩ := List.mem_iff_getElem?.mp howner
    have hij := h.apart i j call' owner path hcall' hj hpath (LockCall.node?_of_heldNode? hheld)
    rw [hij, hj] at hcall'
    cases hcall'
    exact hheld

theorem length_calls_act (h : l.IsSound) (x : LockAction) :
    l.calls.length ≤ (l.act x).calls.length := by
  cases effect_act h x with
  | call found step calls coordination backend cleanups => simp [calls]
  | started attached calls coordination backend cleanups => simp [calls]
  | outside calls coordination backend cleanups allows creates removes => simp [calls]

/-- Whatever is done to a contender is one of its steps. -/
theorem contenderStep_act {a' : Acquisition} (h : l.IsSound)
    (ha : (l.act x).acquisition? i = some a') :
    ∃ ch, (l.act x).coordination = l.coordination.after ch ∧ ContenderStep l i x a' ch := by
  obtain ⟨call', hcall', hprogress⟩ := acquisition?_eq_some_iff.mp ha
  obtain ⟨ch, hcoordination, hcases⟩ := call_act h x hcall'
  refine ⟨ch, hcoordination, ?_⟩
  rcases hcases with ⟨call, found, step⟩ | ⟨hsame, hremoval⟩ | ⟨-, r, rfl⟩
  · exact contenderStep_of_step h found step hprogress
  · refine .kept (acquisition?_eq_some_iff.mpr ⟨call', hsame, hprogress⟩) fun path hch hpath => ?_
    have hheld := hremoval path hch ((LockCall.node?_of_shared hprogress).trans hpath)
    rw [LockCall.heldNode?_of_shared hprogress] at hheld
    cases hheld
  · cases hprogress

/-- A call that was made stays, and takes a step or stays as it is. -/
theorem exists_call_act {call : LockCall} (h : l.IsSound) (x : LockAction)
    (hcall : l.calls[i]? = some call) :
    ∃ call', (l.act x).calls[i]? = some call' ∧
      ((∃ ch, call.Step l.now l.coordination i x call' ch) ∨ call' = call) := by
  have hlt := (List.getElem?_eq_some_iff.mp hcall).1
  have hcall' := List.getElem?_eq_getElem (Nat.lt_of_lt_of_le hlt (length_calls_act h x))
  refine ⟨_, hcall', ?_⟩
  obtain ⟨ch, -, hcases⟩ := call_act h x hcall'
  rcases hcases with ⟨before, found, step⟩ | ⟨hsame, -⟩ | ⟨hnone, -⟩
  · rw [hcall] at found
    cases found
    exact .inl ⟨ch, step⟩
  · rw [hcall] at hsame
    exact .inr (Option.some.inj hsame).symm
  · rw [hcall] at hnone
    cases hnone

/-- A lock that was acquired stays the outcome of its call. -/
theorem heldNode?_act (h : l.IsSound) (hheld : l.heldNode? i = some node) (x : LockAction) :
    (l.act x).heldNode? i = some node := by
  obtain ⟨call, hcall, hnode⟩ := Option.bind_eq_some_iff.mp hheld
  obtain ⟨call', hcall', hcases⟩ := exists_call_act h x hcall
  refine Option.bind_eq_some_iff.mpr ⟨call', hcall', ?_⟩
  rcases hcases with ⟨ch, step⟩ | rfl
  · exact step.heldNode?_eq hnode
  · exact hnode

/-- A call acquires a lock by a step of its own, with a listing that has its node in front. -/
theorem grant_act (h : l.IsSound) (hold : l.heldNode? i = none)
    (hnew : (l.act x).heldNode? i = some node) :
    x = .task (.call i) ∧ (l.act x).coordination = l.coordination ∧
      ∃ a, l.acquisition? i = some a ∧ a.stage = .listing node ∧
        l.coordination.IsConnected a.client ∧
        NodePosition.of (nameOf node) (l.coordination.coordinator.childNames a.directory) = .first := by
  obtain ⟨call', hcall', hnode⟩ := Option.bind_eq_some_iff.mp hnew
  obtain ⟨ch, hcoordination, hcases⟩ := call_act h x hcall'
  rcases hcases with ⟨call, found, step⟩ | ⟨hsame, -⟩ | ⟨-, r, rfl⟩
  · have hcall := h.calls call (List.mem_of_getElem? found)
    have hnone : call.heldNode? = none := by
      rw [heldNode?, found] at hold
      exact hold
    obtain ⟨hx, rfl, a, hprogress, hgrant⟩ := step.grant hcall hnone hnode
    exact ⟨hx, hcoordination, a, acquisition?_eq_some_iff.mpr ⟨call, found, hprogress⟩, hgrant⟩
  · rw [heldNode?, hsame, Option.bind_some, hnode] at hold
    cases hold
  · cases hnode

/-- A call comes to a node only by creating it, with the next number of a directory. -/
theorem created_act (h : l.IsSound) (hold : l.node? i ≠ some node)
    (hnew : (l.act x).node? i = some node) :
    ∃ directory, node = nodePath directory (l.coordination.coordinator.nextNumber directory) ∧
      (l.act x).coordination.coordinator.nextNumber directory =
        l.coordination.coordinator.nextNumber directory + 1 := by
  obtain ⟨call', hcall', hnode⟩ := Option.bind_eq_some_iff.mp hnew
  obtain ⟨ch, hcoordination, hcases⟩ := call_act h x hcall'
  rcases hcases with ⟨call, found, step⟩ | ⟨hsame, -⟩ | ⟨-, r, rfl⟩
  · rw [node?, found, Option.bind_some] at hold
    rcases step.node?_cases (h.calls call (List.mem_of_getElem? found)) with
      ⟨identity, directory, rfl, -, hpath⟩ | hkept | hnone
    · rw [hpath] at hnode
      cases hnode
      refine ⟨directory, rfl, ?_⟩
      rw [hcoordination, Coordination.after, Coordinator.nextNumber_withNode, parentOf_start,
        if_pos rfl]
    · exact absurd (hkept.symm.trans hnode) hold
    · rw [hnone] at hnode
      cases hnode
  · rw [node?, hsame, Option.bind_some] at hold
    exact absurd hnode hold
  · cases hnode

theorem coordination_act (h : l.IsSound) (x : LockAction) :
    ∃ ch, (l.act x).coordination = l.coordination.after ch := by
  cases effect_act h x with
  | call found step calls coordination backend cleanups => exact ⟨_, coordination⟩
  | started attached calls coordination backend cleanups => exact ⟨.none, coordination⟩
  | outside calls coordination backend cleanups allows creates removes => exact ⟨_, coordination⟩

section runs

variable {actions : List LockAction} {k k' : Nat}

theorem isSound_stateAt (actions : List LockAction) (k : Nat) : (stateAt actions k).IsSound :=
  isSound_run _

theorem stateAt_succ (hk : actions[k]? = some x) :
    stateAt actions (k + 1) = (stateAt actions k).act x := by
  rw [stateAt, List.take_add_one, hk]
  exact run_concat _ x

theorem stateAt_succ_of_none (hk : actions[k]? = none) :
    stateAt actions (k + 1) = stateAt actions k := by
  rw [stateAt, List.take_add_one, hk, Option.toList_none, List.append_nil]
  rfl

theorem stateAt_of_length_le (h : actions.length ≤ k) : stateAt actions k = run actions := by
  rw [stateAt, List.take_of_length_le h]

/-- A call stays, with the same request. -/
theorem exists_call_stateAt {call : LockCall} (h : k ≤ k')
    (hcall : (stateAt actions k).calls[i]? = some call) :
    ∃ call', (stateAt actions k').calls[i]? = some call' ∧ call'.request = call.request := by
  induction h with
  | refl => exact ⟨call, hcall, rfl⟩
  | @step m hle ih =>
    obtain ⟨call', hcall', hrequest⟩ := ih
    cases hm : actions[m]? with
    | none =>
      rw [stateAt_succ_of_none hm]
      exact ⟨call', hcall', hrequest⟩
    | some x =>
      obtain ⟨call'', hcall'', hcases⟩ := exists_call_act (isSound_stateAt actions m) x hcall'
      rw [stateAt_succ hm]
      refine ⟨call'', hcall'', ?_⟩
      rcases hcases with ⟨ch, step⟩ | rfl
      · rw [step.request_eq, hrequest]
      · exact hrequest

/-- A call asks for the lock of the same directory all along a run. -/
theorem isFor_of_run {call : LockCall} {directory : String} (hfor : (run actions).IsFor i directory)
    (hcall : (stateAt actions k).calls[i]? = some call) : call.IsFor directory := by
  obtain ⟨last, hlast, hdirectory⟩ := hfor
  have hend : stateAt actions (max k actions.length) = run actions :=
    stateAt_of_length_le (Nat.le_max_right _ _)
  obtain ⟨call', hcall', hrequest⟩ := exists_call_stateAt (Nat.le_max_left k actions.length) hcall
  rw [hend, hlast] at hcall'
  cases hcall'
  rw [LockCall.IsFor, ← hrequest]
  exact hdirectory

/-- Numbers only rise along a run. -/
theorem nextNumber_stateAt_le (actions : List LockAction) (directory : String) (h : k ≤ k') :
    (stateAt actions k).coordination.coordinator.nextNumber directory ≤
      (stateAt actions k').coordination.coordinator.nextNumber directory := by
  induction h with
  | refl => exact Nat.le_refl _
  | @step m hle ih =>
    refine Nat.le_trans ih ?_
    cases hm : actions[m]? with
    | none => exact Nat.le_of_eq (by rw [stateAt_succ_of_none hm])
    | some x =>
      obtain ⟨ch, hch⟩ := coordination_act (isSound_stateAt actions m) x
      rw [stateAt_succ hm, hch]
      exact (Coordination.coordinator_later_after _ ch).numbers directory

/-- A path whose number was given out and that is in the tree has been there ever since. -/
theorem hasNode_stateAt_of_le {directory : String} {n : Nat} (h : k ≤ k')
    (hn : n < (stateAt actions k).coordination.coordinator.nextNumber directory)
    (hnode : (stateAt actions k').coordination.coordinator.hasNode (nodePath directory n) = true) :
    (stateAt actions k).coordination.coordinator.hasNode (nodePath directory n) = true := by
  induction h with
  | refl => exact hnode
  | @step m hle ih =>
    refine ih ?_
    cases hm : actions[m]? with
    | none =>
      rw [stateAt_succ_of_none hm] at hnode
      exact hnode
    | some x =>
      obtain ⟨ch, hch⟩ := coordination_act (isSound_stateAt actions m) x
      rw [stateAt_succ hm, hch] at hnode
      exact Coordination.hasNode_of_after (Nat.lt_of_lt_of_le hn (nextNumber_stateAt_le actions directory hle))
        hnode

end runs

end DurableQueue.Locker
