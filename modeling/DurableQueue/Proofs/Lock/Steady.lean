import DurableQueue.Proofs.Lock.Deletion

/-!
Contenders whose session stays connected.

As long as nothing happens to a session (`Coordination.IsUndisturbed`), its contenders hear of watches
only, and one that has created its node keeps it in the tree until it gives up or gets the lock
(`Acquisition.IsSteady`). Its own moves keep this (`IsSteady.of_move`) and bring it no second node
(`IsSteady.isEarly_of_move`).
-/

namespace DurableQueue

open Acquisition

theorem NodePosition.ne_absent_of_mem {name : String} {names : List String} (h : name ∈ names) :
    NodePosition.of name names ≠ .absent := by
  induction names with
  | nil => cases h
  | cons n rest ih =>
    unfold NodePosition.of
    split
    · simp
    · rename_i hne
      rcases List.mem_cons.mp h with heq | hmem
      · exact absurd heq.symm hne
      · cases hrest : NodePosition.of name rest with
        | absent => exact absurd hrest (ih hmem)
        | first => simp
        | behind predecessor => simp

namespace Coordination

/-- Whether every session is connected and nothing ever happened to it. -/
def IsUndisturbed (c : Coordination) : Prop :=
  ∀ s ∈ c.coordinator.sessions, s.isConnected = true ∧ s.events = []

variable {c : Coordination} {ch : ServiceChange} {client : Nat} {path : String}

theorem IsUndisturbed.isConnected (h : c.IsUndisturbed) (hc : c.IsSound)
    (hclient : client < c.clients.length) : c.IsConnected client := by
  have hs : c.session? client = some _ := List.getElem?_eq_getElem (hc.sessionOf_lt hclient)
  exact ⟨_, hs, (h _ (List.mem_of_getElem? hs)).1⟩

/-- No session has changed if none has in the end. -/
theorem IsUndisturbed.ne_session (h : (c.after ch).IsUndisturbed) {change : SessionEvent}
    {session : Nat} {s : Session} (hs : c.coordinator.sessions[session]? = some s) :
    ch ≠ .session change session := by
  rintro rfl
  have hchanged : (c.after (.session change session)).coordinator.sessions[session]? =
      some (c.coordinator.changed change s) := by
    rw [after, Coordinator.sessions_changeOf, List.getElem?_modify_eq, hs]
    rfl
  have hevents := (h _ (List.mem_of_getElem? hchanged)).2
  rw [Coordinator.events_changed] at hevents
  simp at hevents

/-- While sessions do not change, a node goes only by removal. -/
theorem IsUndisturbed.hasNode_after (h : (c.after ch).IsUndisturbed)
    (hnode : c.coordinator.hasNode path = true) (hremoval : ch ≠ .removal path) :
    (c.after ch).coordinator.hasNode path = true := by
  refine Coordination.hasNode_after hnode hremoval ?_
  intro session s node hch hs
  exact absurd hch (h.ne_session hs)

end Coordination

/-- Whether a contender has not come to create its node. -/
def AcquisitionStage.isEarly : AcquisitionStage → Bool
  | discarding | creating => true
  | _ => false

namespace Acquisition

/-- Where a contender stands while its session stays connected: before its node, with its node in the
tree, or about to delete it since the deadline has passed. -/
inductive HasPlace (c : Coordination) (a : Acquisition) : Prop where
  | before (early : a.stage.isEarly = true) (noNode : a.node? = none)
  | queued {node : String} (past : a.stage.isEarly = false) (state : a.state = .waiting node)
    (there : c.coordinator.hasNode node = true)
  | withdrawing {node : String} (stage : a.stage = .withdrawing) (left : a.stale = some node)
    (there : c.coordinator.hasNode node = true)

/-- What a contender keeps while its session stays connected. -/
structure IsSteady (c : Coordination) (a : Acquisition) : Prop where
  quiet : ∀ signal ∈ a.signals, signal = .predecessorDeleted
  place : a.HasPlace c

variable {now : Nat} {a a' : Acquisition} {c c' : Coordination} {ch : ServiceChange} {node : String}

namespace HasPlace

/-- A contender past its creation has its node in the tree. -/
theorem exists_node (h : a.HasPlace c) (hs : a.IsStaged) (hpast : a.stage.isEarly = false) :
    ∃ node, a.node? = some node ∧ c.coordinator.hasNode node = true := by
  cases h with
  | before early noNode => cases early.symm.trans hpast
  | queued past state there => exact ⟨_, node?_of_waiting state, there⟩
  | withdrawing stage left there =>
    refine ⟨_, ?_, there⟩
    rw [node?, hs.state_of_withdrawing stage]
    exact left

theorem hasNode_of_waiting (h : a.HasPlace c) (hs : a.IsStaged) (hstate : a.state = .waiting node) :
    c.coordinator.hasNode node = true := by
  cases h with
  | before early noNode =>
    rw [node?_of_waiting hstate] at noNode
    cases noNode
  | queued past state there =>
    cases state.symm.trans hstate
    exact there
  | withdrawing stage left there => cases (hs.state_of_withdrawing stage).symm.trans hstate

theorem waiting_of_awaiting (h : a.HasPlace c) (hstage : a.stage = .awaiting) :
    ∃ node, a.state = .waiting node ∧ c.coordinator.hasNode node = true := by
  cases h with
  | before early noNode =>
    rw [hstage] at early
    cases early
  | queued past state there => exact ⟨_, state, there⟩
  | withdrawing stage left there => cases stage.symm.trans hstage

/-- A contender keeps its place as long as its node stays. -/
theorem congr (h : a.HasPlace c) (hs : a.IsStaged)
    (hnode : ∀ node, a.node? = some node → c.coordinator.hasNode node = true →
      c'.coordinator.hasNode node = true) : a.HasPlace c' := by
  cases h with
  | before early noNode => exact .before early noNode
  | queued past state there => exact .queued past state (hnode _ (node?_of_waiting state) there)
  | withdrawing stage left there =>
    refine .withdrawing stage left (hnode _ ?_ there)
    rw [node?, hs.state_of_withdrawing stage]
    exact left

end HasPlace

namespace IsSteady

theorem begin_ (c : Coordination) (client : Nat) (directory : String) (deadline : Nat) :
    (begin_ c client directory deadline).IsSteady c where
  quiet := by
    intro signal hmem
    cases hmem
  place := .before rfl rfl

/-- A contender that waits goes on with the node that it has. -/
theorem of_advance {signal : LockSignal} (hquiet : ∀ s ∈ a.signals, s = .predecessorDeleted)
    (hstate : a.state.next signal = .waiting node) (hnode : c.coordinator.hasNode node = true) :
    (a.advance signal).IsSteady c where
  quiet := hquiet
  place := by
    refine .queued ?_ hstate hnode
    show (stageOf (a.state.next signal)).isEarly = false
    rw [hstate]
    rfl

/-- A contender finds its own name among the answers. -/
theorem position_ne_absent (h : a.IsSteady c) (hsound : a.IsSound c) (hc : c.IsSound)
    (hstage : a.stage = .listing node) :
    NodePosition.of (nameOf node) (c.coordinator.childNames a.directory) ≠ .absent := by
  have hstate := hsound.staged.state_of_listing hstage
  have hthere := h.place.hasNode_of_waiting hsound.staged hstate
  obtain ⟨n, rfl, -⟩ := hsound.numbered node (node?_of_waiting hstate)
  rw [nameOf_nodePath]
  refine NodePosition.ne_absent_of_mem ?_
  exact (Coordinator.mem_childNames_iff hc.service.holdsLockNodes).mpr ⟨n, rfl, hthere⟩

/-- A contender whose session stays connected moves on without losing its node, unless it is done. -/
theorem of_move (h : a.IsSteady c) (hsound : a.IsSound c) (hc : c.IsSound)
    (hconnected : c.IsConnected a.client) (hm : Move now c a a' ch)
    (hgoes : ∀ result, a'.stage ≠ .over result) : a'.IsSteady (c.after ch) := by
  have hs := hsound.staged
  -- who waits has its node in the tree
  have hthere : ∀ node, a.state = .waiting node → c.coordinator.hasNode node = true :=
    fun node hstate => h.place.hasNode_of_waiting hs hstate
  cases hm with
  | discarded stage =>
    refine ⟨h.quiet, .before rfl ?_⟩
    simp [node?, hs.state_of_discarding stage, LockState.node?]
  | @created s stage session connected =>
    refine of_advance h.quiet (by rw [hs.state_of_creating stage]; rfl) ?_
    have hself := Coordinator.hasNode_withNode_self c.coordinator s.identity
      (a.directory ++ "/" ++ nodeStart)
    rw [parentOf_start] at hself
    exact hself
  | refused stage lost => exact absurd hconnected lost
  | @first node stage connected position =>
    refine absurd ?_ (hgoes (.ok (some node)))
    show stageOf (a.state.next .acquired) = _
    rw [hs.state_of_listing stage]
    rfl
  | absent stage connected position => exact absurd position (h.position_ne_absent hsound hc stage)
  | behind stage connected position =>
    have hstate := hs.state_of_listing stage
    exact ⟨h.quiet, .queued rfl hstate (hthere _ hstate)⟩
  | watched stage present =>
    have hstate := hs.state_of_watching stage
    exact ⟨h.quiet, .queued rfl hstate (hthere _ hstate)⟩
  | vanished stage gone =>
    have hstate := hs.state_of_watching stage
    refine ⟨?_, .queued rfl hstate (hthere _ hstate)⟩
    intro signal hmem
    rcases List.mem_append.mp hmem with hmem | hmem
    · exact h.quiet signal hmem
    · exact List.mem_singleton.mp hmem
  | lossHeard stage signals =>
    have hlost := h.quiet .sessionLost (by rw [signals]; exact List.mem_cons_self)
    cases hlost
  | @woken signal rest stage signals ne =>
    have hsignal := h.quiet signal (by rw [signals]; exact List.mem_cons_self)
    subst hsignal
    obtain ⟨node, hstate, hnode⟩ := h.place.waiting_of_awaiting stage
    refine of_advance ?_ (by rw [hstate]; rfl) hnode
    intro signal hmem
    exact h.quiet signal (by rw [signals]; exact List.mem_cons_of_mem _ hmem)
  | timedOut stage due =>
    obtain ⟨node, hstate, hnode⟩ := h.place.waiting_of_awaiting stage
    refine ⟨h.quiet, .withdrawing rfl ?_ hnode⟩
    simp [apply, hstate, LockState.next, LockState.node?]
  | withdrawn stage => exact absurd rfl (hgoes (.ok none))

/-- A contender whose session stays connected creates no second node. -/
theorem isEarly_of_move (h : a.IsSteady c) (hsound : a.IsSound c) (hc : c.IsSound)
    (hm : Move now c a a' ch) (hpast : a.stage.isEarly = false) : a'.stage.isEarly = false := by
  cases hm with
  | discarded stage =>
    rw [stage] at hpast
    cases hpast
  | created stage session connected =>
    rw [stage] at hpast
    cases hpast
  | first stage connected position =>
    show (stageOf (a.state.next .acquired)).isEarly = false
    rw [hsound.staged.state_of_listing stage]
    rfl
  | absent stage connected position => exact absurd position (h.position_ne_absent hsound hc stage)
  | @woken signal rest stage signals ne =>
    have hsignal := h.quiet signal (by rw [signals]; exact List.mem_cons_self)
    subst hsignal
    obtain ⟨node, hstate, -⟩ := h.place.waiting_of_awaiting stage
    show (stageOf (a.state.next .predecessorDeleted)).isEarly = false
    rw [hstate]
    rfl
  | lossHeard stage signals => exact hpast
  | _ => rfl

/-- A session to which nothing happens tells nothing. -/
theorem hearEvent?_eq_none (h : c.IsUndisturbed) (a : Acquisition) : a.hearEvent? c = none := by
  refine Option.eq_none_iff_forall_ne_some.mpr fun a' hears => ?_
  obtain ⟨s, r, seen, hs, hr, -⟩ := hearEvent?_eq_some hears
  have hevents := (h s (List.mem_of_getElem? hs)).2
  simp [Session.receive?, hevents] at hr

theorem of_hearWatch {w : Nat} (h : a.IsSteady c) (hears : a.hearWatch? w c = some a') :
    a'.IsSteady c := by
  obtain ⟨-, -, rfl⟩ := hearWatch?_eq_some hears
  constructor
  · intro signal hmem
    rcases List.mem_append.mp hmem with hmem | hmem
    · exact h.quiet signal hmem
    · exact List.mem_singleton.mp hmem
  · cases h.place with
    | before early noNode => exact .before early noNode
    | queued past state there => exact .queued past state there
    | withdrawing stage left there => exact .withdrawing stage left there

end IsSteady

end Acquisition

namespace LockCall

variable {now i : Nat} {c : Coordination} {call call' : LockCall} {x : LockAction}
  {ch : ServiceChange} {a a' : Acquisition}

/-- A call whose contender goes on is not over. -/
theorem ofAcquisition_eq_shared {r : LockRequest} (h : ofAcquisition r a = .shared a') :
    a' = a ∧ ∀ result, a.stage ≠ .over result := by
  unfold ofAcquisition at h
  split at h
  · cases h
  · cases h
  · cases h
  · rename_i hnode hnone herror
    cases h
    refine ⟨rfl, fun result hstage => ?_⟩
    rcases result with e | node
    · exact herror e hstage
    · cases node with
      | none => exact hnone hstage
      | some node => exact hnode node hstage

/-- Whether the contender of a call is steady. -/
def IsSteady (c : Coordination) (call : LockCall) : Prop :=
  ∀ a, call.progress = .shared a → a.IsSteady c

/-- Whether a call has begun and its contender, if it goes on, is past the creation of its node. -/
def IsPast (call : LockCall) : Prop :=
  call.progress ≠ .fresh ∧ ∀ a, call.progress = .shared a → a.stage.isEarly = false

/-- The contender of a call stays steady through everything that can happen to the call. -/
theorem IsSteady.of_step (h : call.IsSteady c) (hsound : call.IsSound c) (hc : c.IsSound)
    (hu : c.IsUndisturbed) (hs : Step now c i call x call' ch) : call'.IsSteady (c.after ch) := by
  cases hs with
  | begun progress =>
    intro a ha
    rcases begin_cases call.request now c with ⟨directory, deadline, -, heq⟩ | ⟨outcome, heq, -⟩
    · cases heq.symm.trans ha
      exact .begin_ c _ _ _
    · cases heq.symm.trans ha
  | gone aborted outcome =>
    intro a ha
    cases ha
  | @moved _ a a' _ action progress move =>
    intro b hb
    obtain ⟨rfl, hgoes⟩ := ofAcquisition_eq_shared hb
    obtain ⟨ha, -⟩ := hsound.contender a progress
    exact (h a progress).of_move ha hc (hu.isConnected hc ha.attached) move hgoes
  | heardEvent progress hears =>
    rw [Acquisition.IsSteady.hearEvent?_eq_none hu] at hears
    cases hears
  | heardWatch progress hears =>
    intro b hb
    cases hb
    exact (h _ progress).of_hearWatch hears
  | aborted => exact h
  | detached => exact h

theorem IsPast.of_step (h : call.IsPast) (hsteady : call.IsSteady c) (hsound : call.IsSound c)
    (hc : c.IsSound) (hs : Step now c i call x call' ch) : call'.IsPast := by
  cases hs with
  | begun progress => exact absurd progress h.1
  | gone aborted outcome => exact ⟨by simp, by simp⟩
  | @moved _ a a' _ action progress move =>
    obtain ⟨ha, -⟩ := hsound.contender a progress
    have hpast := (hsteady a progress).isEarly_of_move ha hc move (h.2 a progress)
    constructor
    · unfold ofAcquisition
      split <;> simp
    · intro b hb
      obtain ⟨rfl, -⟩ := ofAcquisition_eq_shared hb
      exact hpast
  | heardEvent progress hears =>
    have hpast := h.2 _ progress
    obtain ⟨s, r, seen, -, -, rfl⟩ := hearEvent?_eq_some hears
    refine ⟨by simp, fun b hb => ?_⟩
    cases hb
    exact hpast
  | heardWatch progress hears =>
    have hpast := h.2 _ progress
    obtain ⟨-, -, rfl⟩ := hearWatch?_eq_some hears
    refine ⟨by simp, fun b hb => ?_⟩
    cases hb
    exact hpast
  | aborted => exact h
  | detached => exact h

end LockCall

end DurableQueue
