import DurableQueue.Proofs.Lock.Exclusion

/-!
Where the nodes of the tree come from.

A call speaks through the client that its request names, and the lock that it acquires carries the
service, the key and the client of the request (`LockCall.IsFaithful`). Every node of the tree was
created by a call, and belongs to the session through which that call speaks (`exists_origin`). So
an expiry of that session takes every node of the call with it (`gone_of_expired`).
-/

namespace DurableQueue

open Acquisition

namespace Acquisition

variable {now : Nat} {a a' : Acquisition} {c : Coordination} {ch : ServiceChange}

theorem clearing_ne_node (a : Acquisition) (c : Coordination) (identity : Nat) (directory : String) :
    a.clearing c ≠ .node identity directory := by
  unfold clearing
  cases a.stale with
  | none => simp
  | some node =>
    rcases c.deletion_eq a.client node with h | h
    · simp [h]
    · simp [h]

/-- A node that a contender creates belongs to its session, and the contender has it. -/
theorem Move.creation {identity : Nat} {directory : String}
    (h : Move now c a a' (.node identity directory)) (hs : a.IsStaged) :
    (∃ s, c.session? a.client = some s ∧ identity = s.identity) ∧
      a'.state = .waiting (nodePath directory (c.coordinator.nextNumber directory)) ∧
      a'.stage = stageOf a'.state := by
  generalize hch : ServiceChange.node identity directory = ch at h
  cases h with
  | @created s stage session connected =>
    cases hch
    refine ⟨⟨s, session, rfl⟩, ?_, rfl⟩
    rw [advance, apply_state, hs.state_of_creating stage]
    rfl
  | discarded stage => exact absurd hch.symm (clearing_ne_node a c identity directory)
  | withdrawn stage => exact absurd hch.symm (clearing_ne_node a c identity directory)
  | _ => cases hch

end Acquisition

namespace LockCall

/-- A call speaks through the client of its request; a lock that it acquires says what was asked. -/
structure IsFaithful (call : LockCall) : Prop where
  speaks : ∀ a, call.progress = .shared a → a.client = call.request.client
  carries : ∀ lock, call.lock? = some lock →
    ∃ node, lock = ⟨call.request.service, call.request.key, .shared call.request.client node⟩

variable {now i : Nat} {c : Coordination} {call call' : LockCall} {x : LockAction}
  {ch : ServiceChange} {node : String}

namespace IsFaithful

theorem of_contender {a : Acquisition} (h : a.client = call.request.client) :
    ({ call with progress := .shared a } : LockCall).IsFaithful where
  speaks := by
    intro a' ha'
    cases ha'
    exact h
  carries := by
    intro lock hlock
    cases hlock

theorem of_over {outcome : LockOutcome} (h : ∀ lock, outcome.lock? = some lock →
      ∃ node, lock = ⟨call.request.service, call.request.key, .shared call.request.client node⟩) :
    ({ call with progress := .over outcome } : LockCall).IsFaithful where
  speaks := by
    intro a ha
    cases ha
  carries := h

theorem begun (call : LockCall) :
    ({ call with progress := begin_ call.request .shared now c } : LockCall).IsFaithful := by
  rcases begin_cases call.request now c with ⟨directory, deadline, -, heq⟩ | ⟨outcome, heq, hlock⟩
  · rw [heq]
    exact of_contender rfl
  · rw [heq]
    refine of_over fun lock h => ?_
    rw [hlock] at h
    cases h

theorem moved {a : Acquisition} (h : a.client = call.request.client) :
    ({ call with progress := ofAcquisition call.request a } : LockCall).IsFaithful := by
  unfold ofAcquisition
  split
  · rename_i node _
    refine of_over fun lock hlock => ⟨node, ?_⟩
    cases hlock
    rw [h]
  · exact of_over fun lock hlock => by cases hlock
  · exact of_over fun lock hlock => by cases hlock
  · exact of_contender h

/-- A call stays faithful whatever happens to it. -/
theorem of_step (h : call.IsFaithful) (hs : Step now c i call x call' ch) : call'.IsFaithful := by
  cases hs with
  | begun progress => exact begun call
  | gone aborted outcome =>
    constructor
    · intro a ha
      cases ha
    · intro lock hlock
      cases hlock
  | moved action progress move => exact moved (move.client_eq.trans (h.speaks _ progress))
  | heardEvent progress hears =>
    have hclient := h.speaks _ progress
    obtain ⟨s, r, seen, -, -, rfl⟩ := hearEvent?_eq_some hears
    exact of_contender hclient
  | heardWatch progress hears =>
    have hclient := h.speaks _ progress
    obtain ⟨-, -, rfl⟩ := hearWatch?_eq_some hears
    exact of_contender hclient
  | aborted => exact ⟨h.speaks, h.carries⟩
  | detached => exact ⟨h.speaks, h.carries⟩

theorem ofRequest (r : LockRequest) : (ofRequest r).IsFaithful where
  speaks := by
    intro a ha
    cases ha
  carries := by
    intro lock hlock
    cases hlock

/-- The lock of a call that has one. -/
theorem lock?_eq (h : call.IsFaithful) (hn : call.heldNode? = some node) :
    call.lock? =
      some ⟨call.request.service, call.request.key, .shared call.request.client node⟩ := by
  obtain ⟨lock, hlock, hhold⟩ := Option.bind_eq_some_iff.mp hn
  obtain ⟨node', rfl⟩ := h.carries lock hlock
  cases hhold
  exact hlock

end IsFaithful

/-- A node that a call creates belongs to the session of its client, and its contender has it. -/
theorem Step.creation {identity : Nat} {directory : String}
    (hs : Step now c i call x call' (.node identity directory)) (h : call.IsSound c)
    (hf : call.IsFaithful) :
    (∃ s, c.session? call.request.client = some s ∧ identity = s.identity) ∧
      ∃ a', call'.progress = .shared a' ∧
        a'.node? = some (nodePath directory (c.coordinator.nextNumber directory)) := by
  generalize hch : ServiceChange.node identity directory = ch at hs
  cases hs with
  | @moved _ a a' _ action progress move =>
    subst hch
    obtain ⟨ha, -⟩ := h.contender a progress
    obtain ⟨hsession, hstate, hstage⟩ := move.creation ha.staged
    rw [← hf.speaks a progress]
    refine ⟨hsession, ?_⟩
    rw [hstate] at hstage
    have hgoes : ofAcquisition call.request a' = .shared a' := by
      rw [ofAcquisition, hstage]
      rfl
    exact ⟨a', hgoes, node?_of_waiting hstate⟩
  | _ => cases hch

end LockCall

namespace Locker

variable {l : Locker} {x : LockAction} {i : Nat} {node : String} {actions : List LockAction}
  {k : Nat}

theorem isFaithful_stateAt (actions : List LockAction) (k : Nat) {call : LockCall}
    (hcall : (stateAt actions k).calls[i]? = some call) : call.IsFaithful := by
  induction k generalizing call with
  | zero => cases hcall
  | succ k ih =>
    cases hk : actions[k]? with
    | none =>
      rw [stateAt_succ_of_none hk] at hcall
      exact ih hcall
    | some x =>
      rw [stateAt_succ hk] at hcall
      obtain ⟨ch, -, hcases⟩ := call_act (isSound_stateAt actions k) x hcall
      rcases hcases with ⟨before, hbefore, step⟩ | ⟨hsame, -⟩ | ⟨-, r, rfl⟩
      · exact (ih hbefore).of_step step
      · exact ih hsame
      · exact .ofRequest r

theorem isFaithful_run {call : LockCall} (hcall : (run actions).calls[i]? = some call) :
    call.IsFaithful := by
  rw [← stateAt_of_length_le (Nat.le_refl actions.length)] at hcall
  exact isFaithful_stateAt actions _ hcall

theorem stateAt_concat (x : LockAction) (h : k ≤ actions.length) :
    stateAt (actions ++ [x]) k = stateAt actions k := by
  rw [stateAt, stateAt, List.take_append_of_le_length h]

theorem CreatedAt.lt (h : CreatedAt actions k i node) : k < actions.length := by
  refine Nat.lt_of_not_le fun hle => ?_
  obtain ⟨hold, hnew⟩ := h
  rw [stateAt_succ_of_none (List.getElem?_eq_none_iff.mpr hle)] at hnew
  exact hold hnew

/-- What a call created, it created in every longer run. -/
theorem CreatedAt.concat (h : CreatedAt actions k i node) (x : LockAction) :
    CreatedAt (actions ++ [x]) k i node := by
  have hlt := h.lt
  unfold CreatedAt
  rw [stateAt_concat x (Nat.le_of_lt hlt), stateAt_concat x hlt]
  exact h

/-- Whether a node was created by a call and belongs to the session of its client. -/
def IsOrigin (actions : List LockAction) (node : LockNode) (i : Nat) : Prop :=
  (∃ k, CreatedAt actions k i node.path) ∧
    ∃ call s, (run actions).calls[i]? = some call ∧
      (run actions).coordination.session? call.request.client = some s ∧ node.owner = s.identity

/-- A node that stays keeps its origin. -/
theorem IsOrigin.concat {n : LockNode} (h : IsOrigin actions n i) {ch : ServiceChange}
    (hch : ((run actions).act x).coordination = (run actions).coordination.after ch)
    (hn : n ∈ ((run actions).act x).coordination.coordinator.nodes) :
    IsOrigin (actions ++ [x]) n i := by
  obtain ⟨⟨k, hk⟩, call, s, hcall, hs, howner⟩ := h
  have hsound := isSound_run actions
  have hattached := (hsound.calls call (List.mem_of_getElem? hcall)).attached
  refine ⟨⟨k, hk.concat x⟩, ?_⟩
  obtain ⟨call', hcall', hcases⟩ := exists_call_act hsound x hcall
  have hrequest : call'.request = call.request := by
    rcases hcases with ⟨_, step⟩ | rfl
    · exact step.request_eq
    · rfl
  rw [hch] at hn
  obtain ⟨s', hs', howner'⟩ := Coordination.owner_after hattached hs howner hn
  rw [run_concat]
  refine ⟨call', s', hcall', ?_, howner'⟩
  rw [hch, hrequest]
  exact hs'

/-- A node that a call creates has its origin there. -/
theorem isOrigin_of_creation {call call' : LockCall} {identity : Nat} {directory : String}
    (hcall : (run actions).calls[i]? = some call)
    (step : call.Step (run actions).now (run actions).coordination i x call'
      (.node identity directory))
    (hcall' : ((run actions).act x).calls[i]? = some call')
    (hch : ((run actions).act x).coordination =
      (run actions).coordination.after (.node identity directory)) :
    IsOrigin (actions ++ [x])
        ⟨nodePath directory ((run actions).coordination.coordinator.nextNumber directory), identity⟩ i ∧
      ∃ a', ((run actions).act x).acquisition? i = some a' ∧
        a'.node? =
          some (nodePath directory ((run actions).coordination.coordinator.nextNumber directory)) := by
  have hsound := isSound_run actions
  have hmem := List.mem_of_getElem? hcall
  obtain ⟨⟨s, hs, hidentity⟩, a', hprogress, hnode⟩ :=
    step.creation (hsound.calls call hmem) (isFaithful_run hcall)
  have hnew : ((run actions).act x).node? i =
      some (nodePath directory ((run actions).coordination.coordinator.nextNumber directory)) := by
    rw [node?, hcall', Option.bind_some, LockCall.node?_of_shared hprogress, hnode]
  refine ⟨⟨⟨actions.length, ?_, ?_⟩, ?_⟩, a', ?_, hnode⟩
  · rw [stateAt_concat x (Nat.le_refl _), stateAt_of_length_le (Nat.le_refl _), node?, hcall]
    intro hold
    exact absurd (hsound.node_lt hmem hold) (Nat.lt_irrefl _)
  · rw [stateAt_of_length_le (by simp), run_concat]
    exact hnew
  · rw [run_concat]
    refine ⟨call', s, hcall', ?_, hidentity⟩
    rw [hch, step.request_eq]
    exact hs
  · exact acquisition?_eq_some_iff.mpr ⟨call', hcall', hprogress⟩

/-- After an action a node of the tree was there before, or a call has just created it. -/
theorem mem_nodes_act (actions : List LockAction) (x : LockAction) {n : LockNode}
    (hn : n ∈ ((run actions).act x).coordination.coordinator.nodes) :
    n ∈ (run actions).coordination.coordinator.nodes ∨
      ∃ i, IsOrigin (actions ++ [x]) n i ∧
        ∃ a, ((run actions).act x).acquisition? i = some a ∧ a.node? = some n.path := by
  have hsound := isSound_run actions
  cases effect_act hsound x with
  | @call j before after ch found step calls coordination backend cleanups =>
    rw [coordination] at hn
    rcases Coordination.mem_nodes_after hn with hold | ⟨identity, directory, rfl, rfl⟩
    · exact .inl hold
    · refine .inr ⟨j, isOrigin_of_creation found step ?_ coordination⟩
      rw [calls]
      exact List.getElem?_set_self (List.getElem?_eq_some_iff.mp found).1
  | started attached calls coordination backend cleanups =>
    rw [coordination] at hn
    exact .inl hn
  | outside calls coordination backend cleanups allows creates removes =>
    rw [coordination] at hn
    rcases Coordination.mem_nodes_after hn with hold | ⟨identity, directory, hch, -⟩
    · exact .inl hold
    · exact absurd hch (creates identity directory)

/-- Every node of the tree was created by a call and belongs to the session of its client. -/
theorem exists_origin (actions : List LockAction) (n : LockNode)
    (hn : n ∈ (run actions).coordination.coordinator.nodes) : ∃ i, IsOrigin actions n i := by
  induction actions using List.reverseRecOn generalizing n with
  | nil => cases hn
  | append_singleton actions x ih =>
    rw [run_concat] at hn
    rcases mem_nodes_act actions x hn with hold | ⟨i, horigin, -⟩
    · obtain ⟨i, horigin⟩ := ih n hold
      obtain ⟨ch, hch⟩ := coordination_act (isSound_run actions) x
      exact ⟨i, horigin.concat hch hn⟩
    · exact ⟨i, horigin⟩

/-- A call that has a node created it. -/
theorem exists_created (h : (stateAt actions k).node? i = some node) :
    ∃ b < k, CreatedAt actions b i node := by
  induction k with
  | zero => cases h
  | succ k ih =>
    by_cases hold : (stateAt actions k).node? i = some node
    · obtain ⟨b, hb, hcreated⟩ := ih hold
      exact ⟨b, Nat.lt_succ_of_lt hb, hcreated⟩
    · exact ⟨k, Nat.lt_succ_self k, hold, h⟩

/-- A node is created once, by one call. -/
theorem CreatedAt.eq {j k' : Nat} (h : CreatedAt actions k i node)
    (h' : CreatedAt actions k' j node) : i = j := by
  have hsound := isSound_stateAt actions (k + 1)
  obtain ⟨call, hcall, hnode⟩ := Option.bind_eq_some_iff.mp h.2
  obtain ⟨directory, n, -, rfl, -⟩ :=
    (hsound.calls call (List.mem_of_getElem? hcall)).numbered_node hnode
  have hk : k = k' := by
    rcases Nat.lt_trichotomy k k' with hlt | heq | hlt
    · exact absurd (number_lt_of_created h h' hlt) (Nat.lt_irrefl _)
    · exact heq
    · exact absurd (number_lt_of_created h' h hlt) (Nat.lt_irrefl _)
  subst hk
  obtain ⟨other, hother, hnode'⟩ := Option.bind_eq_some_iff.mp h'.2
  exact hsound.apart i j call other _ hcall hother hnode hnode'

/-- When a session expires, the nodes of the calls that speak through it are gone. -/
theorem gone_of_expired {call : LockCall} {client : Nat} (h : CreatedAt actions k i node)
    (hcall : (run actions).calls[i]? = some call)
    (hclient : (run actions).coordination.sessionOf client =
      (run actions).coordination.sessionOf call.request.client) :
    ((run actions).act (.undergo client .expired)).coordination.coordinator.hasNode node = false := by
  refine Bool.eq_false_iff.mpr fun hnode => ?_
  obtain ⟨n, hn, hpath⟩ := Coordinator.hasNode_iff.mp hnode
  obtain ⟨hold, hkept⟩ := Coordinator.mem_nodes_changeOf.mp hn
  obtain ⟨j, ⟨k', hk'⟩, other, s, hother, hs, howner⟩ := exists_origin actions n hold
  rw [hpath] at hk'
  rw [← h.eq hk', hcall] at hother
  cases hother
  refine hkept ⟨rfl, s, ?_, howner⟩
  rw [Coordination.session?, ← hclient] at hs
  exact hs

end Locker

end DurableQueue
