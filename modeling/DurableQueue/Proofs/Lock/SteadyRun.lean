import DurableQueue.Proofs.Lock.Steady

/-!
Runs in which every session stays connected.

As long as no session changes (`Locker.StaysConnected`), no deletion is refused (`Locker.not_refusedAt`).
A call that has found its lock taken has its node in the tree as long as it goes on
(`Locker.exists_node_of_foundTakenAt`), and so has whoever has the lock until it parts with it
(`Locker.hasNode_of_isHeldOn`).
-/

namespace DurableQueue

open Acquisition

namespace Locker

/-- Whether no session changes in a run. -/
def StaysConnected (actions : List LockAction) : Prop :=
  ∀ client change, .undergo client change ∉ actions

/-- Whether a call has found at a place that others come before it. -/
def FoundTakenAt (actions : List LockAction) (k i : Nat) : Prop :=
  ∃ a node predecessor, (stateAt actions k).acquisition? i = some a ∧
    a.stage = .watching node predecessor

variable {l : Locker} {x : LockAction} {i j k k' client : Nat} {node : String} {actions : List LockAction}
  {d : LockCleanup} {call : LockCall}

namespace StaysConnected

theorem of_concat (h : StaysConnected (actions ++ [x])) :
    StaysConnected actions ∧ ∀ client change, x ≠ .undergo client change := by
  constructor
  · intro client change hmem
    exact h client change (List.mem_append_left _ hmem)
  · rintro client change rfl
    exact h client change (List.mem_append_right _ (List.mem_singleton_self _))

theorem take (h : StaysConnected actions) (k : Nat) : StaysConnected (actions.take k) :=
  fun client change hmem => h client change (List.mem_of_mem_take hmem)

end StaysConnected

theorem isUndisturbed_act (hl : l.IsSound) (h : l.coordination.IsUndisturbed)
    (hx : ∀ client change, x ≠ .undergo client change) : (l.act x).coordination.IsUndisturbed := by
  cases hd : l.deletion? x with
  | none =>
    obtain ⟨ch, hmild, hch⟩ := mild_act hl hd hx
    rw [hch]
    intro s hs
    rcases Coordination.mem_sessions_after_of_isMild hmild hs with hold | hnew
    · exact h s hold
    · exact hnew
  | some d =>
    rw [coordination_of_deletion? hl hd]
    rcases l.coordination.deletion_eq d.client d.node with hch | hch
    · rw [hch]
      exact h
    · rw [hch]
      exact h

theorem isUndisturbed_run (h : StaysConnected actions) : (run actions).coordination.IsUndisturbed := by
  induction actions using List.reverseRecOn with
  | nil =>
    intro s hs
    cases hs
  | append_singleton actions x ih =>
    rw [run_concat]
    exact isUndisturbed_act (isSound_run actions) (ih h.of_concat.1) h.of_concat.2

/-- Contenders stay steady whatever is done, as long as no session changes. -/
theorem isSteady_act (hl : l.IsSound) (hu : l.coordination.IsUndisturbed)
    (hu' : (l.act x).coordination.IsUndisturbed)
    (h : ∀ call ∈ l.calls, call.IsSteady l.coordination) :
    ∀ call ∈ (l.act x).calls, call.IsSteady (l.act x).coordination := by
  intro call' hmem
  obtain ⟨i, hi⟩ := List.mem_iff_getElem?.mp hmem
  obtain ⟨ch, hch, hcases⟩ := call_act hl x hi
  rw [hch] at hu' ⊢
  rcases hcases with ⟨call, hcall, step⟩ | ⟨hsame, hremoval⟩ | ⟨-, r, rfl⟩
  · have hfound := List.mem_of_getElem? hcall
    exact (h call hfound).of_step (hl.calls call hfound) hl.service hu step
  · intro a ha
    have hfound := List.mem_of_getElem? hsame
    have hsteady := h call' hfound a ha
    obtain ⟨hsound, -⟩ := (hl.calls call' hfound).contender a ha
    refine ⟨hsteady.quiet, hsteady.place.congr hsound.staged fun node hnode hthere => ?_⟩
    refine hu'.hasNode_after hthere fun hgone => ?_
    have hheld := hremoval node hgone ((LockCall.node?_of_shared ha).trans hnode)
    rw [LockCall.heldNode?_of_shared ha] at hheld
    cases hheld
  · intro a ha
    cases ha

theorem isSteady_run (h : StaysConnected actions) :
    ∀ call ∈ (run actions).calls, call.IsSteady (run actions).coordination := by
  induction actions using List.reverseRecOn with
  | nil =>
    intro call hmem
    cases hmem
  | append_singleton actions x ih =>
    have hu' := isUndisturbed_run h
    rw [run_concat] at hu' ⊢
    exact isSteady_act (isSound_run actions) (isUndisturbed_run h.of_concat.1) hu' (ih h.of_concat.1)

/-- Who is past the creation of its node stays so. -/
theorem exists_isPast_of_le (h : StaysConnected actions) (hk : k ≤ k')
    (hcall : (stateAt actions k).calls[i]? = some call) (hpast : call.IsPast) :
    ∃ call', (stateAt actions k').calls[i]? = some call' ∧ call'.IsPast := by
  induction hk with
  | refl => exact ⟨call, hcall, hpast⟩
  | @step m hle ih =>
    obtain ⟨call', hcall', hpast'⟩ := ih
    cases hm : actions[m]? with
    | none =>
      rw [stateAt_succ_of_none hm]
      exact ⟨call', hcall', hpast'⟩
    | some x =>
      have hsound := isSound_stateAt actions m
      have hmem := List.mem_of_getElem? hcall'
      rw [stateAt_succ hm]
      obtain ⟨call'', hcall'', hcases⟩ := exists_call_act hsound x hcall'
      refine ⟨call'', hcall'', ?_⟩
      rcases hcases with ⟨ch, step⟩ | rfl
      · exact hpast'.of_step (isSteady_run (h.take m) call' hmem) (hsound.calls call' hmem)
          hsound.service step
      · exact hpast'

/-- Who found the lock taken has its node in the tree as long as it goes on. -/
theorem exists_node_of_foundTakenAt (h : StaysConnected actions) (hfound : FoundTakenAt actions k i)
    {a : Acquisition} (ha : (run actions).acquisition? i = some a) :
    ∃ node, a.node? = some node ∧ (run actions).coordination.coordinator.hasNode node = true := by
  obtain ⟨b, own, predecessor, hb, hstage⟩ := hfound
  obtain ⟨call, hcall, hp⟩ := acquisition?_eq_some_iff.mp hb
  have hpast : call.IsPast := by
    refine ⟨by simp [hp], fun b' hb' => ?_⟩
    cases hp.symm.trans hb'
    rw [hstage]
    rfl
  obtain ⟨call', hcall', hpast'⟩ :=
    exists_isPast_of_le h (Nat.le_max_left k actions.length) hcall hpast
  rw [stateAt_of_length_le (Nat.le_max_right _ _)] at hcall'
  obtain ⟨last, hlast, hshared⟩ := acquisition?_eq_some_iff.mp ha
  rw [hcall'] at hlast
  cases hlast
  have hsteady := isSteady_run h call' (List.mem_of_getElem? hcall') a hshared
  exact hsteady.place.exists_node ((isSound_run actions).contender ha).staged (hpast'.2 a hshared)

/-! Locks that are held. -/

theorem IsSound.eq_of_heldNode?_eq (h : l.IsSound) (hi : l.heldNode? i = some node)
    (hj : l.heldNode? j = some node) : i = j := by
  obtain ⟨call, hcall, hheld⟩ := Option.bind_eq_some_iff.mp hi
  obtain ⟨call', hcall', hheld'⟩ := Option.bind_eq_some_iff.mp hj
  exact h.apart i j call call' node hcall hcall' (LockCall.node?_of_heldNode? hheld)
    (LockCall.node?_of_heldNode? hheld')

theorem heldNode?_of_hold {lock : GlobalLock} (hcall : l.calls[i]? = some call)
    (hlock : call.lock? = some lock) (hhold : lock.hold = .shared client node) :
    l.heldNode? i = some node := by
  rw [heldNode?, hcall, Option.bind_some, LockCall.heldNode?, hlock, Option.bind_some, hhold]

/-- Who parts with a lock had it before. -/
theorem heldNode?_of_partsWith (h : l.IsSound) (hparts : x.PartsWith i)
    (hheld : (l.act x).heldNode? i = some node) : l.heldNode? i = some node := by
  cases hold : l.heldNode? i with
  | none =>
    obtain ⟨rfl, -⟩ := grant_act h hold hheld
    rcases hparts with heq | heq | ⟨way, heq⟩
    · cases heq
    · cases heq
    · cases heq
  | some own =>
    rw [← heldNode?_act h hold x]
    exact hheld

/-- Who has a lock that it had before has not parted with it in between. -/
theorem IsHeldOn.of_concat (h : IsHeldOn (actions ++ [x]) i node)
    (hold : (run actions).heldNode? i = some node) :
    IsHeldOn actions i node ∧ ¬ x.PartsWith i := by
  have hparts : ¬ x.PartsWith i := by
    refine h.kept actions.length x (by simp) ?_
    rw [stateAt_length]
    exact hold
  refine ⟨⟨hold, ?_, ?_⟩, hparts⟩
  · intro k y hk hearly
    have hlt := (List.getElem?_eq_some_iff.mp hk).1
    refine h.kept k y ?_ ?_
    · rw [List.getElem?_append_left hlt]
      exact hk
    · rw [stateAt_concat x (Nat.le_of_lt hlt)]
      exact hearly
  · intro call hcall
    obtain ⟨call', hcall', hcases⟩ := exists_call_act (isSound_run actions) x hcall
    have hattended := h.attended call' (by rw [run_concat]; exact hcall')
    rcases hcases with ⟨ch, step⟩ | rfl
    · rw [← step.isDetached_eq fun hx => hparts (.inr (.inl hx))]
      exact hattended
    · exact hattended

/-- What is to be deleted in the background is the node of no lock that somebody has. -/
theorem not_isHeldOn_of_pending (hd : d ∈ (run actions).cleanups) : ¬ IsHeldOn actions i d.node := by
  induction actions using List.reverseRecOn with
  | nil => cases hd
  | append_singleton actions x ih =>
    intro hheld
    have hsound := isSound_run actions
    have hnow := hheld.held
    rw [run_concat] at hd hnow
    have hsound' := isSound_act hsound x
    rcases mem_cleanups_of_act hsound hd with hold | ⟨j, call, lock, hcall, hlock, hhold, hwhy⟩
    · obtain ⟨owner, howner, hown⟩ := hsound.settled d hold
      obtain ⟨j, hj⟩ := List.mem_iff_getElem?.mp howner
      have hbefore : (run actions).heldNode? j = some d.node := by
        rw [heldNode?, hj]
        exact hown
      cases hsound'.eq_of_heldNode?_eq hnow (heldNode?_act hsound hbefore x)
      exact ih hold (hheld.of_concat hbefore).1
    · cases hsound'.eq_of_heldNode?_eq hnow (heldNode?_of_hold hcall hlock hhold)
      rcases hwhy with hparts | hdetached
      · have hbefore := heldNode?_of_partsWith hsound hparts hnow
        exact (hheld.of_concat hbefore).2 hparts
      · have hattended := hheld.attended call (by rw [run_concat]; exact hcall)
        rw [hdetached] at hattended
        cases hattended

/-- No action deletes the node of a lock that somebody has and keeps. -/
theorem ne_of_deletion? (hheld : IsHeldOn actions i node) (hparts : ¬ x.PartsWith i)
    (hd : (run actions).deletion? x = some d) : d.node ≠ node := by
  rintro rfl
  have hsound := isSound_run actions
  rcases deletion?_cases hd with ⟨j, call, a, -, hcall, hp, hdeletes⟩ | ⟨-, hpending⟩ |
    ⟨j, call, lock, rfl, hcall, hlock, hhold⟩
  · obtain ⟨own, hown, hnode⟩ := Option.bind_eq_some_iff.mp hheld.held
    obtain ⟨hcontender, -⟩ := (hsound.calls call (List.mem_of_getElem? hcall)).contender a hp
    have hleft := (node?_of_deletion? hcontender.staged hdeletes).1
    -- a contender has no lock yet
    cases hsound.apart i j own call d.node hown hcall (LockCall.node?_of_heldNode? hnode)
      ((LockCall.node?_of_shared hp).trans hleft)
    rw [hown] at hcall
    cases hcall
    rw [LockCall.heldNode?_of_shared hp] at hnode
    cases hnode
  · exact not_isHeldOn_of_pending hpending hheld
  · have hother := heldNode?_of_hold hcall hlock hhold
    cases hsound.eq_of_heldNode?_eq hheld.held hother
    exact hparts (.inr (.inr ⟨_, rfl⟩))

/-- Whoever has a lock has its node in the tree. -/
theorem hasNode_of_isHeldOn (h : StaysConnected actions) (hheld : IsHeldOn actions i node) :
    (run actions).coordination.coordinator.hasNode node = true := by
  induction actions using List.reverseRecOn with
  | nil => cases hheld.held
  | append_singleton actions x ih =>
    have hsound := isSound_run actions
    obtain ⟨hbefore, hx⟩ := h.of_concat
    have hnow := hheld.held
    rw [run_concat] at hnow ⊢
    cases hold : (run actions).heldNode? i with
    | none =>
      obtain ⟨-, hsame, a, ha, hstage, -⟩ := grant_act hsound hold hnow
      obtain ⟨call, hcall, hp⟩ := acquisition?_eq_some_iff.mp ha
      have hsteady := isSteady_run hbefore call (List.mem_of_getElem? hcall) a hp
      have hstaged := (hsound.contender ha).staged
      rw [hsame]
      exact hsteady.place.hasNode_of_waiting hstaged (hstaged.state_of_listing hstage)
    | some own =>
      have hkept := heldNode?_act hsound hold x
      rw [hnow] at hkept
      cases hkept
      obtain ⟨hheld', hparts⟩ := hheld.of_concat hold
      exact hasNode_act hsound hx (fun d hd => ne_of_deletion? hheld' hparts hd) (ih hbefore hheld')

/-! Deletions that are not refused. -/

/-- A lock rests on a node of a client that is there. -/
theorem attached_of_hold {lock : GlobalLock} (hcall : (run actions).calls[i]? = some call)
    (hlock : call.lock? = some lock) (hhold : lock.hold = .shared client node) :
    client < (run actions).coordination.clients.length := by
  obtain ⟨own, rfl⟩ := (isFaithful_run hcall).carries lock hlock
  rw [← (LockHold.shared.inj hhold).1]
  exact ((isSound_run actions).calls call (List.mem_of_getElem? hcall)).attached

/-- Deletions in the background are asked for by clients that are there. -/
theorem attached_of_pending (hd : d ∈ (run actions).cleanups) :
    d.client < (run actions).coordination.clients.length := by
  induction actions using List.reverseRecOn with
  | nil => cases hd
  | append_singleton actions x ih =>
    have hsound := isSound_run actions
    rw [run_concat] at hd
    rcases mem_cleanups_of_act hsound hd with hold | ⟨j, call, lock, hcall, hlock, hhold, -⟩
    · obtain ⟨ch, hch⟩ := coordination_act hsound x
      rw [run_concat, hch]
      exact Nat.lt_of_lt_of_le (ih hold) (Coordination.length_clients_after _ ch)
    · rw [← run_concat] at hcall
      exact attached_of_hold hcall hlock hhold

theorem attached_of_deletion? (hd : (run actions).deletion? x = some d) :
    d.client < (run actions).coordination.clients.length := by
  have hsound := isSound_run actions
  rcases deletion?_cases hd with ⟨j, call, a, -, hcall, hp, hdeletes⟩ | ⟨-, hpending⟩ |
    ⟨j, call, lock, -, hcall, hlock, hhold⟩
  · obtain ⟨hcontender, -⟩ := (hsound.calls call (List.mem_of_getElem? hcall)).contender a hp
    rw [(node?_of_deletion? hcontender.staged hdeletes).2]
    exact hcontender.attached
  · exact attached_of_pending hpending
  · exact attached_of_hold hcall hlock hhold

/-- As long as no session changes, no deletion is refused. -/
theorem not_refusedAt (h : StaysConnected actions) : ¬ RefusedAt actions k node := by
  rintro ⟨x, client, -, hd, hlost⟩
  have hattached : client < (stateAt actions k).coordination.clients.length :=
    attached_of_deletion? hd
  exact hlost ((isUndisturbed_run (h.take k)).isConnected (isSound_stateAt actions k).service hattached)

end Locker

end DurableQueue
