import DurableQueue.Proofs.Lock.Leftover
import DurableQueue.Proofs.Lock.OneAction

/-!
What actions take from the tree, and what they leave to be deleted.

Nodes go by deletions and with sessions that expire, by nothing else: an action that deletes no node
(`Locker.deletion?`) and changes no session makes a mild change (`Locker.mild_act`), and a mild change
keeps every node and every session (`Coordination.hasNode_after_of_isMild`,
`Coordination.mem_sessions_after_of_isMild`). A deletion that is left to the background comes from a lock
that was parted with, or for which nobody waited (`Locker.mem_cleanups_of_act`).
-/

namespace DurableQueue

open Acquisition

/-- Whether a change removes no node and changes no session. -/
def ServiceChange.IsMild : ServiceChange → Prop
  | .removal _ | .session _ _ => False
  | _ => True

namespace Coordination

variable {c : Coordination} {ch : ServiceChange} {path : String}

theorem hasNode_after_of_isMild (h : ch.IsMild) (hnode : c.coordinator.hasNode path = true) :
    (c.after ch).coordinator.hasNode path = true := by
  refine hasNode_after hnode ?_ ?_
  · rintro rfl
    exact h
  · rintro session s node rfl
    exact h.elim

/-- A session that is there after a mild change was there before, or was just opened. -/
theorem mem_sessions_after_of_isMild (h : ch.IsMild) {s : Session}
    (hs : s ∈ (c.after ch).coordinator.sessions) :
    s ∈ c.coordinator.sessions ∨ s.isConnected = true ∧ s.events = [] := by
  cases ch with
  | opening =>
    rcases List.mem_append.mp hs with hs | hs
    · exact .inl hs
    · rw [List.mem_singleton.mp hs]
      exact .inr ⟨rfl, rfl⟩
  | removal path => exact h.elim
  | session change session => exact h.elim
  | _ => exact .inl hs

end Coordination

namespace Acquisition

variable {now : Nat} {a a' : Acquisition} {c : Coordination} {ch : ServiceChange} {d : LockCleanup}

/-- A contender that clears away the node that it left behind deletes it. -/
theorem clearing_cases (c : Coordination) (hstage : a.stage = .discarding ∨ a.stage = .withdrawing) :
    (a.clearing c).IsMild ∨ ∃ d, a.deletion? = some d := by
  unfold clearing deletion?
  cases hstale : a.stale with
  | none => exact .inl trivial
  | some node =>
    right
    rcases hstage with hstage | hstage
    · exact ⟨⟨a.client, node⟩, by rw [hstage]; rfl⟩
    · exact ⟨⟨a.client, node⟩, by rw [hstage]; rfl⟩

/-- A step of a contender that deletes no node is mild. -/
theorem Move.isMild (h : Move now c a a' ch) (hd : a.deletion? = none) : ch.IsMild := by
  have hclearing : a.stage = .discarding ∨ a.stage = .withdrawing → (a.clearing c).IsMild := by
    intro hstage
    rcases clearing_cases c hstage with hmild | ⟨d, hdeletes⟩
    · exact hmild
    · rw [hd] at hdeletes
      cases hdeletes
  cases h with
  | discarded stage => exact hclearing (.inl stage)
  | withdrawn stage => exact hclearing (.inr stage)
  | _ => trivial

/-- The node that a contender is about to delete is its own, and it asks for that itself. -/
theorem node?_of_deletion? (hs : a.IsStaged) (hd : a.deletion? = some d) :
    a.node? = some d.node ∧ d.client = a.client := by
  unfold deletion? at hd
  split at hd
  · rename_i stage
    obtain ⟨node, hstale, rfl⟩ := Option.map_eq_some_iff.mp hd
    rw [node?, hs.state_of_discarding stage]
    exact ⟨hstale, rfl⟩
  · rename_i stage
    obtain ⟨node, hstale, rfl⟩ := Option.map_eq_some_iff.mp hd
    rw [node?, hs.state_of_withdrawing stage]
    exact ⟨hstale, rfl⟩
  · cases hd

end Acquisition

namespace Locker

variable {l l' : Locker} {x : LockAction} {i : Nat} {node : String} {actions : List LockAction}
  {call : LockCall} {lock : GlobalLock} {d k : LockCleanup}

/-! What an action does to the service. -/

/-- Who deletes a node: a contender that left it behind, the background, or whoever releases a lock. -/
theorem deletion?_cases (hd : l.deletion? x = some d) :
    (∃ (i : Nat) (call : LockCall) (a : Acquisition), x = .task (.call i) ∧ l.calls[i]? = some call ∧
      call.progress = .shared a ∧ a.deletion? = some d) ∨
    (x = .task (.cleanup d) ∧ d ∈ l.cleanups) ∨
    ∃ (i : Nat) (call : LockCall) (lock : GlobalLock), x = .part i .released ∧ l.calls[i]? = some call ∧
      call.lock? = some lock ∧ lock.hold = .shared d.client d.node := by
  unfold deletion? at hd
  split at hd
  · rename_i i
    simp only [Option.bind_eq_bind, Option.bind_eq_some_iff] at hd
    obtain ⟨call, hcall, hd⟩ := hd
    split at hd
    · cases hd
    · obtain ⟨a, ha, hd⟩ := Option.bind_eq_some_iff.mp hd
      exact .inl ⟨i, call, a, rfl, hcall, LockCall.progress_of_acquisition? ha, hd⟩
  · split at hd
    · rename_i hcontains
      cases hd
      exact .inr (.inl ⟨rfl, List.contains_iff_mem.mp hcontains⟩)
    · cases hd
  · rename_i i
    obtain ⟨lock, hfound, hd⟩ := Option.bind_eq_some_iff.mp hd
    obtain ⟨call, hcall, hlock⟩ := Option.bind_eq_some_iff.mp hfound
    split at hd
    · rename_i client node hhold
      cases hd
      exact .inr (.inr ⟨i, call, lock, rfl, hcall, hlock, hhold⟩)
    · cases hd
  · cases hd

theorem mild_of_same (h : (l.act x).coordination = l.coordination) :
    ∃ ch : ServiceChange, ch.IsMild ∧ (l.act x).coordination = l.coordination.after ch :=
  ⟨.none, trivial, h⟩

theorem mild_stepCall? (h : l.IsSound) (hs : l.stepCall? i = some l')
    (hd : l.deletion? (.task (.call i)) = none) :
    ∃ ch : ServiceChange, ch.IsMild ∧ l'.coordination = l.coordination.after ch := by
  have hfound : ∃ call, l.calls[i]? = some call := by
    unfold stepCall? at hs
    obtain ⟨call, hcall, -⟩ := Option.bind_eq_some_iff.mp hs
    exact ⟨call, hcall⟩
  obtain ⟨call, hcall⟩ := hfound
  have hsound := h.calls call (List.mem_of_getElem? hcall)
  cases haborted : call.isAborted with
  | true =>
    refine ⟨.none, trivial, ?_⟩
    unfold stepCall? at hs
    simp only [hcall, Option.bind_eq_bind, Option.bind_some, haborted] at hs
    cases hprogress : call.progress with
    | inProcess w => exact absurd hprogress (hsound.elsewhere w)
    | fresh | shared a =>
      simp only [hprogress] at hs
      cases hs
      rfl
    | «over» outcome | gone =>
      simp only [hprogress] at hs
      cases hs
  | false =>
    cases hprogress : call.progress with
    | inProcess w => exact absurd hprogress (hsound.elsewhere w)
    | shared a =>
      rw [stepCall?_contender hcall hprogress haborted] at hs
      obtain ⟨⟨a', c'⟩, hstep, rfl⟩ := Option.map_eq_some_iff.mp hs
      obtain ⟨ha, -⟩ := hsound.contender a hprogress
      obtain ⟨ch, hmove, rfl⟩ := move_of_step? h.service.faultless ha.heard ha.staged hstep
      refine ⟨ch, hmove.isMild ?_, by rw [coordination_proceed]⟩
      simpa [deletion?, hcall, haborted, LockCall.acquisition?, hprogress] using hd
    | fresh =>
      unfold stepCall? at hs
      simp only [hcall, Option.bind_eq_bind, Option.bind_some, haborted, hprogress] at hs
      cases hs
      exact ⟨.none, trivial, coordination_proceed _ _ _ _⟩
    | «over» outcome | gone =>
      unfold stepCall? at hs
      simp only [hcall, Option.bind_eq_bind, Option.bind_some, hprogress] at hs
      cases hs

theorem mild_task {t : LockTask} (h : l.IsSound) (hs : step? t l = some l')
    (hd : l.deletion? (.task t) = none) :
    ∃ ch : ServiceChange, ch.IsMild ∧ l'.coordination = l.coordination.after ch := by
  cases t with
  | call i => exact mild_stepCall? h hs hd
  | watch i w =>
    simp only [step?, Option.bind_eq_bind, Option.bind_eq_some_iff] at hs
    obtain ⟨a, -, a', -, heq⟩ := hs
    cases heq
    exact ⟨.none, trivial, rfl⟩
  | events i =>
    simp only [step?, Option.bind_eq_bind, Option.bind_eq_some_iff] at hs
    obtain ⟨a, -, a', -, heq⟩ := hs
    cases heq
    exact ⟨.none, trivial, rfl⟩
  | cleanup d =>
    simp only [deletion?] at hd
    simp only [step?] at hs
    split at hs
    · rename_i hcontains
      rw [if_pos hcontains] at hd
      cases hd
    · cases hs

theorem coordination_letGo (l : Locker) (i : Nat) (f : LockCall → LockCall) :
    (l.letGo i f).coordination = l.coordination := by
  unfold letGo
  split
  · exact coordination_drop l _
  · rfl

/-- Who parts with a lock deletes its node or leaves the service as it is. -/
theorem coordination_partWith (way : Trial.LockParting)
    (hfound : (l.calls[i]?).bind LockCall.lock? = some lock)
    (hd : l.deletion? (.part i way) = none) :
    (l.partWith lock way).coordination = l.coordination := by
  cases way with
  | released =>
    simp only [deletion?, hfound] at hd
    simp only [partWith, release]
    cases hhold : lock.hold with
    | inProcess path => rfl
    | shared client node =>
      simp [hhold] at hd
  | dropped => exact coordination_drop l lock
  | droppedOutside =>
    simp only [partWith, dropOutside]
    split <;> rfl

/-- An action that deletes no node and changes no session makes a mild change. -/
theorem mild_act (h : l.IsSound) (hd : l.deletion? x = none)
    (hx : ∀ client change, x ≠ .undergo client change) :
    ∃ ch : ServiceChange, ch.IsMild ∧ (l.act x).coordination = l.coordination.after ch := by
  cases x with
  | task t =>
    cases hs : step? t l with
    | none =>
      refine mild_of_same ?_
      show (((step? t l).map refresh).getD l).coordination = _
      rw [hs]
      rfl
    | some l' =>
      rw [coordination_of_step hs]
      exact mild_task h hs hd
  | timeOut i =>
    refine mild_of_same ?_
    show (((l.timeOut? i).map refresh).getD l).coordination = _
    cases hs : l.timeOut? i with
    | none => rfl
    | some l' =>
      simp only [timeOut?, Option.bind_eq_bind, Option.bind_eq_some_iff] at hs
      obtain ⟨call, -, a, -, a', -, hs⟩ := hs
      split at hs
      · cases hs
      · cases hs
        rfl
  | start r =>
    refine mild_of_same ?_
    simp only [act]
    split <;> rfl
  | abort i =>
    refine mild_of_same ?_
    rw [act, abort_eq_letGo]
    exact coordination_letGo l i _
  | detach i =>
    refine mild_of_same ?_
    rw [act, detach_eq_letGo]
    exact coordination_letGo l i _
  | part i way =>
    refine mild_of_same ?_
    simp only [act]
    cases hlock : (l.calls[i]?).bind LockCall.lock? with
    | none => rfl
    | some lock => exact coordination_partWith way hlock hd
  | isFree client service key =>
    refine mild_of_same ?_
    rw [act, isFree_snd h.service.faultless]
  | openSession => exact ⟨.opening, trivial, rfl⟩
  | clone client =>
    simp only [act]
    split
    · exact ⟨.cloning client, trivial, rfl⟩
    · exact ⟨.none, trivial, rfl⟩
  | undergo client change => exact absurd rfl (hx client change)
  | pass millis => exact mild_of_same rfl

/-- A node stays in the tree unless an action deletes it or changes a session. -/
theorem hasNode_act (h : l.IsSound) (hx : ∀ client change, x ≠ .undergo client change)
    (hd : ∀ d, l.deletion? x = some d → d.node ≠ node)
    (hnode : l.coordination.coordinator.hasNode node = true) :
    (l.act x).coordination.coordinator.hasNode node = true := by
  cases hdeletion : l.deletion? x with
  | none =>
    obtain ⟨ch, hmild, hch⟩ := mild_act h hdeletion hx
    rw [hch]
    exact Coordination.hasNode_after_of_isMild hmild hnode
  | some d =>
    rw [coordination_of_deletion? h hdeletion]
    rcases l.coordination.deletion_eq d.client d.node with hch | hch
    · rw [hch]
      exact hnode
    · rw [hch]
      refine Coordination.hasNode_after hnode ?_ (by simp)
      intro heq
      exact hd d hdeletion (ServiceChange.removal.inj heq)

/-! What an action leaves to be deleted. -/

/-- Whether a call acquired a lock whose node is to be deleted, and an action parts with the lock or
nobody waits for the call. -/
def Abandons (l : Locker) (x : LockAction) (k : LockCleanup) : Prop :=
  ∃ i call lock, l.calls[i]? = some call ∧ call.lock? = some lock ∧
    lock.hold = .shared k.client k.node ∧ (x.PartsWith i ∨ call.isDetached = true)

theorem mem_cleanups_of_mem_drop (h : k ∈ (l.drop lock).cleanups) :
    k ∈ l.cleanups ∨ lock.hold = .shared k.client k.node := by
  unfold drop at h
  split at h
  · exact .inl h
  · rename_i client node hhold
    rcases List.mem_append.mp h with h | h
    · exact .inl h
    · rw [List.mem_singleton.mp h]
      exact .inr hhold

/-- Who parts with a lock leaves nothing else to be deleted than its node. -/
theorem abandons_of_drop (hlock : (l.calls[i]?).bind LockCall.lock? = some lock)
    (hparts : x.PartsWith i) (hk : k ∈ (l.drop lock).cleanups) :
    k ∈ l.cleanups ∨ (l.drop lock).Abandons x k := by
  rcases mem_cleanups_of_mem_drop hk with hk | hhold
  · exact .inl hk
  · obtain ⟨call, hcall, hown⟩ := Option.bind_eq_some_iff.mp hlock
    refine .inr ⟨i, call, lock, ?_, hown, hhold, .inl hparts⟩
    rw [calls_drop]
    exact hcall

/-- A call that moves leaves a lock to be deleted only if nobody waits for it. -/
theorem abandons_of_proceed {progress : LockProgress} (hcall : l.calls[i]? = some call)
    (hk : k ∈ (l.proceed i call progress).cleanups) :
    k ∈ l.cleanups ∨ (l.proceed i call progress).Abandons x k := by
  unfold proceed at hk
  simp only at hk
  split at hk
  · rename_i lock hdetached
    rcases mem_cleanups_of_mem_drop hk with hk | hhold
    · exact .inl hk
    · refine .inr ⟨i, { call with progress := .over (.acquired lock) }, lock, ?_, rfl, hhold,
        .inr hdetached⟩
      rw [calls_proceed hcall, List.getElem?_set_self (List.getElem?_eq_some_iff.mp hcall).1]
  · exact .inl hk

theorem abandons_of_stepCall? (hs : l.stepCall? i = some l') (hk : k ∈ l'.cleanups) :
    k ∈ l.cleanups ∨ l'.Abandons x k := by
  unfold stepCall? at hs
  simp only [Option.bind_eq_bind, Option.bind_eq_some_iff] at hs
  obtain ⟨call, hcall, hs⟩ := hs
  split at hs
  · cases hs
  · cases hs
  · cases hs
    exact .inl hk
  · cases hs
    exact .inl hk
  · cases hs
    exact abandons_of_proceed hcall hk
  · obtain ⟨p, -, hs⟩ := Option.bind_eq_some_iff.mp hs
    cases hs
    exact abandons_of_proceed (l := { l with locals := p.2 }) hcall hk
  · obtain ⟨p, -, hs⟩ := Option.bind_eq_some_iff.mp hs
    cases hs
    exact abandons_of_proceed (l := { l with coordination := p.2 }) hcall hk

theorem abandons_of_task {t : LockTask} (hs : step? t l = some l') (hk : k ∈ l'.cleanups) :
    k ∈ l.cleanups ∨ l'.Abandons x k := by
  cases t with
  | call i => exact abandons_of_stepCall? hs hk
  | watch i w =>
    simp only [step?, Option.bind_eq_bind, Option.bind_eq_some_iff] at hs
    obtain ⟨a, -, a', -, heq⟩ := hs
    cases heq
    exact .inl hk
  | events i =>
    simp only [step?, Option.bind_eq_bind, Option.bind_eq_some_iff] at hs
    obtain ⟨a, -, a', -, heq⟩ := hs
    cases heq
    exact .inl hk
  | cleanup d =>
    simp only [step?] at hs
    split at hs
    · cases hs
      exact .inl (List.mem_of_mem_erase hk)
    · cases hs

theorem abandons_of_letGo {f : LockCall → LockCall} (hparts : x.PartsWith i)
    (hk : k ∈ (l.letGo i f).cleanups) : k ∈ l.cleanups ∨ (l.letGo i f).Abandons x k := by
  unfold letGo at hk ⊢
  split at hk
  · rename_i lock hlock
    exact abandons_of_drop hlock hparts hk
  · exact .inl hk

theorem abandons_of_partWith (way : Trial.LockParting)
    (hlock : (l.calls[i]?).bind LockCall.lock? = some lock)
    (hk : k ∈ (l.partWith lock way).cleanups) :
    k ∈ l.cleanups ∨ (l.partWith lock way).Abandons (.part i way) k := by
  cases way with
  | released =>
    simp only [partWith, release] at hk
    split at hk
    · exact .inl hk
    · exact .inl hk
  | dropped => exact abandons_of_drop hlock (.inr (.inr ⟨_, rfl⟩)) hk
  | droppedOutside =>
    simp only [partWith, dropOutside] at hk
    split at hk
    · exact .inl hk
    · exact .inl hk

/-- What is to be deleted in the background was so before, or is the node of a lock that an action
parts with or for which nobody waits. -/
theorem mem_cleanups_of_act (h : l.IsSound) (hk : k ∈ (l.act x).cleanups) :
    k ∈ l.cleanups ∨ (l.act x).Abandons x k := by
  cases x with
  | task t =>
    have hact : l.act (.task t) = ((step? t l).map refresh).getD l := rfl
    cases hs : step? t l with
    | none =>
      rw [hact, hs] at hk
      exact .inl hk
    | some l' =>
      rw [hact, hs] at hk ⊢
      have hnow : k ∈ l.cleanups ∨ l'.Abandons (.task t) k := abandons_of_task hs hk
      exact hnow
  | timeOut i =>
    have hact : l.act (.timeOut i) = ((l.timeOut? i).map refresh).getD l := rfl
    cases hs : l.timeOut? i with
    | none =>
      rw [hact, hs] at hk
      exact .inl hk
    | some l' =>
      rw [hact, hs] at hk
      left
      rw [← cleanups_timeOut? hs]
      exact hk
  | start r =>
    simp only [act] at hk
    split at hk
    · exact .inl hk
    · exact .inl hk
  | abort i =>
    rw [act, abort_eq_letGo] at hk ⊢
    exact abandons_of_letGo (.inl rfl) hk
  | detach i =>
    rw [act, detach_eq_letGo] at hk ⊢
    exact abandons_of_letGo (.inr (.inl rfl)) hk
  | part i way =>
    simp only [act] at hk ⊢
    cases hlock : (l.calls[i]?).bind LockCall.lock? with
    | none =>
      rw [hlock] at hk
      exact .inl hk
    | some lock =>
      rw [hlock] at hk
      exact abandons_of_partWith way hlock hk
  | isFree client service key =>
    rw [act, isFree_snd h.service.faultless] at hk
    exact .inl hk
  | clone client =>
    simp only [act] at hk
    split at hk
    · exact .inl hk
    · exact .inl hk
  | openSession => exact .inl hk
  | undergo client change => exact .inl hk
  | pass millis => exact .inl hk

end Locker

end DurableQueue
