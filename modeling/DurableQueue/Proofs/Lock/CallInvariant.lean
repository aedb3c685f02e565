import DurableQueue.Proofs.Lock.Parked
import DurableQueue.Proofs.Lock.Run

/-!
What a call keeps while it and everyone else go on.

`LockCall.Step` says everything that can happen to one call. `LockCall.IsSound` says that its
contender is sound and that the node of its lock has a number that was given out; others keep it
(`IsSound.after`) and so does every step (`IsSound.of_step`). A step gives a call a node of its own
only with a number that is new (`Step.node?_cases`), and a lock only after a listing with its node in
front (`Step.grant`).
-/

namespace DurableQueue

open Acquisition

namespace LockCall

/-- The node of a call: the one of its contender, or the one on which its lock rests. -/
def node? (call : LockCall) : Option String :=
  match call.progress with
  | .shared a => a.node?
  | _ => call.heldNode?

/-- Whether a call asks for the lock of a directory. -/
def IsFor (call : LockCall) (directory : String) : Prop :=
  lockDirectory call.request.service call.request.key = .ok directory

/-- What a call keeps. -/
structure IsSound (c : Coordination) (call : LockCall) : Prop where
  attached : call.request.client < c.clients.length
  elsewhere : ∀ w, call.progress ≠ .inProcess w
  contender : ∀ a, call.progress = .shared a → a.IsSound c ∧ call.IsFor a.directory
  numbered : ∀ node, call.heldNode? = some node →
    ∃ directory n, call.IsFor directory ∧ node = nodePath directory n ∧
      n < c.coordinator.nextNumber directory

/-- What can happen to call number `i`, and what it does to the service. -/
inductive Step (now : Nat) (c : Coordination) (i : Nat) (call : LockCall) :
    LockAction → LockCall → ServiceChange → Prop where
  | begun (progress : call.progress = .fresh) :
    Step now c i call (.task (.call i))
      { call with progress := begin_ call.request .shared now c } .none
  | gone (aborted : call.isAborted = true) (outcome : call.outcome? = none) :
    Step now c i call (.task (.call i)) { call with progress := .gone } .none
  /-- Its contender moves; only a deadline can do without the task of the call. -/
  | moved {x : LockAction} {a a' : Acquisition} {ch : ServiceChange}
    (action : x = .task (.call i) ∧ call.isAborted = false ∨ x = .timeOut i ∧ a'.stage = .withdrawing)
    (progress : call.progress = .shared a) (move : Move now c a a' ch) :
    Step now c i call x { call with progress := ofAcquisition call.request a' } ch
  | heardEvent {a a' : Acquisition} (progress : call.progress = .shared a)
    (hears : a.hearEvent? c = some a') :
    Step now c i call (.task (.events i)) { call with progress := .shared a' } .none
  | heardWatch {a a' : Acquisition} {w : Nat} (progress : call.progress = .shared a)
    (hears : a.hearWatch? w c = some a') :
    Step now c i call (.task (.watch i w)) { call with progress := .shared a' } .none
  | aborted : Step now c i call (.abort i) { call with isAborted := true } .none
  | detached : Step now c i call (.detach i) { call with isDetached := true } .none

variable {now i : Nat} {c : Coordination} {call call' : LockCall} {x : LockAction}
  {ch : ServiceChange} {node : String}

theorem progress_of_acquisition? {a : Acquisition} (h : call.acquisition? = some a) :
    call.progress = .shared a := by
  unfold acquisition? at h
  cases hp : call.progress with
  | shared b =>
    rw [hp] at h
    cases h
    rfl
  | _ =>
    rw [hp] at h
    cases h

theorem heldNode?_of_outcome (h : call.outcome? = none) : call.heldNode? = none := by
  simp [heldNode?, lock?, h]

theorem heldNode?_of_shared {a : Acquisition} (h : call.progress = .shared a) :
    call.heldNode? = none := by
  refine heldNode?_of_outcome ?_
  rw [outcome?, h]

theorem node?_of_shared {a : Acquisition} (h : call.progress = .shared a) :
    call.node? = a.node? := by
  rw [node?, h]

theorem node?_of_heldNode? (h : call.heldNode? = some node) : call.node? = some node := by
  cases hp : call.progress with
  | shared a =>
    rw [heldNode?_of_shared hp] at h
    cases h
  | _ =>
    rw [node?, hp]
    exact h

/-- How far a call comes whose contender moves: it has the lock, gave up, or goes on. -/
theorem ofAcquisition_cases (r : LockRequest) {a : Acquisition} (hs : a.IsStaged) :
    (∃ node, a.stage = .over (.ok (some node)) ∧ a.node? = some node ∧
      ofAcquisition r a = .over (.acquired ⟨r.service, r.key, .shared a.client node⟩)) ∨
    ofAcquisition r a = .over .timedOut ∨ ofAcquisition r a = .shared a := by
  unfold IsStaged at hs
  unfold ofAcquisition
  cases hstage : a.stage with
  | «over» result =>
    rw [hstage] at hs
    cases result with
    | error e => exact hs.elim
    | ok held =>
      cases held with
      | some node => exact .inl ⟨node, rfl, node?_of_state hs, rfl⟩
      | none => exact .inr (.inl rfl)
  | _ => exact .inr (.inr rfl)

/-- A call begins as a contender for a directory or fails at once. -/
theorem begin_cases (r : LockRequest) (now : Nat) (c : Coordination) :
    (∃ directory deadline, lockDirectory r.service r.key = .ok directory ∧
      begin_ r .shared now c = .shared (.begin_ c r.client directory deadline)) ∨
    ∃ outcome, begin_ r .shared now c = .over outcome ∧ outcome.lock? = none := by
  unfold begin_
  cases hdir : lockDirectory r.service r.key with
  | error e => exact .inr ⟨_, rfl, rfl⟩
  | ok directory =>
    simp only
    split
    · exact .inr ⟨_, rfl, rfl⟩
    · exact .inl ⟨directory, _, rfl, rfl⟩

theorem heldNode?_of_over {outcome : LockOutcome} (h : call.progress = .over outcome)
    (hlock : outcome.lock? = none) : call.heldNode? = none := by
  rw [heldNode?, lock?, outcome?, h, Option.bind_some, hlock]
  rfl

namespace IsSound

theorem numbered_node (h : call.IsSound c) (hn : call.node? = some node) :
    ∃ directory n, call.IsFor directory ∧ node = nodePath directory n ∧
      n < c.coordinator.nextNumber directory := by
  cases hp : call.progress with
  | shared a =>
    obtain ⟨ha, hfor⟩ := h.contender a hp
    rw [node?_of_shared hp] at hn
    obtain ⟨n, hpath, hlt⟩ := ha.numbered node hn
    exact ⟨a.directory, n, hfor, hpath, hlt⟩
  | _ =>
    rw [node?, hp] at hn
    exact h.numbered node hn

theorem ofRequest {r : LockRequest} (h : r.client < c.clients.length) :
    (ofRequest r).IsSound c where
  attached := h
  elsewhere := by
    intro w hp
    cases hp
  contender := by
    intro a hp
    cases hp
  numbered := by
    intro node hn
    cases hn

/-- What others do leaves a call sound; the node of its contender they do not remove by path. -/
theorem after (h : call.IsSound c) (hc : c.IsSound)
    (hremoval : ∀ path, ch = .removal path → call.node? = some path → call.heldNode? = some path) :
    call.IsSound (c.after ch) where
  attached := Nat.lt_of_lt_of_le h.attached (Coordination.length_clients_after c ch)
  elsewhere := h.elsewhere
  contender := by
    intro a hp
    obtain ⟨ha, hfor⟩ := h.contender a hp
    refine ⟨ha.after hc fun path hch hnode => ?_, hfor⟩
    have hheld := hremoval path hch ((node?_of_shared hp).trans hnode)
    rw [heldNode?_of_shared hp] at hheld
    cases hheld
  numbered := by
    intro node hn
    obtain ⟨directory, n, hfor, hpath, hlt⟩ := h.numbered node hn
    have hlater := Coordination.coordinator_later_after c ch
    exact ⟨directory, n, hfor, hpath, Nat.lt_of_lt_of_le hlt (hlater.numbers directory)⟩

/-- A call whose contender goes on is sound. -/
theorem of_contender {a : Acquisition} (h : call.request.client < c.clients.length)
    (ha : a.IsSound c) (hfor : call.IsFor a.directory) :
    ({ call with progress := .shared a } : LockCall).IsSound c where
  attached := h
  elsewhere := by
    intro w hp
    cases hp
  contender := by
    intro a' hp
    cases hp
    exact ⟨ha, hfor⟩
  numbered := by
    intro node hn
    cases hn

/-- A call that ended without the lock is sound. -/
theorem of_ended {progress : LockProgress} (h : call.request.client < c.clients.length)
    (hlocal : ∀ w, progress ≠ .inProcess w) (hshared : ∀ a, progress ≠ .shared a)
    (hheld : ({ call with progress } : LockCall).heldNode? = none) :
    ({ call with progress } : LockCall).IsSound c where
  attached := h
  elsewhere := hlocal
  contender := fun a hp => absurd hp (hshared a)
  numbered := by
    intro node hn
    rw [hheld] at hn
    cases hn

theorem begun (h : call.IsSound c) :
    ({ call with progress := begin_ call.request .shared now c } : LockCall).IsSound c := by
  rcases begin_cases call.request now c with ⟨directory, deadline, hdir, heq⟩ | ⟨outcome, heq, hlock⟩
  · rw [heq]
    exact of_contender h.attached (.begin_ h.attached directory deadline) hdir
  · rw [heq]
    exact of_ended h.attached (by simp) (by simp) (heldNode?_of_over rfl hlock)

/-- A call stays sound when its contender moves. -/
theorem of_move {a a' : Acquisition} (h : call.IsSound c) (hc : c.IsSound)
    (hp : call.progress = .shared a) (hm : Move now c a a' ch) :
    ({ call with progress := ofAcquisition call.request a' } : LockCall).IsSound (c.after ch) := by
  obtain ⟨ha, hfor⟩ := h.contender a hp
  have ha' := ha.of_move hc hm
  have hlater := Coordination.length_clients_after c ch
  have hattached : call.request.client < (c.after ch).clients.length :=
    Nat.lt_of_lt_of_le h.attached hlater
  have hfor' : call.IsFor a'.directory := by
    rw [hm.directory_eq]
    exact hfor
  rcases ofAcquisition_cases call.request ha'.staged with ⟨node, -, hnode, heq⟩ | heq | heq
  · rw [heq]
    constructor
    · exact hattached
    · intro w hp'
      cases hp'
    · intro a'' hp'
      cases hp'
    · intro node' hn
      cases hn
      obtain ⟨n, hpath, hlt⟩ := ha'.numbered node hnode
      exact ⟨a'.directory, n, hfor', hpath, hlt⟩
  · rw [heq]
    exact of_ended hattached (by simp) (by simp) rfl
  · rw [heq]
    exact of_contender hattached ha' hfor'

/-- A call stays sound through everything that can happen to it. -/
theorem of_step (h : call.IsSound c) (hc : c.IsSound) (hs : Step now c i call x call' ch) :
    call'.IsSound (c.after ch) := by
  cases hs with
  | begun progress => exact h.begun
  | gone aborted outcome => exact of_ended h.attached (by simp) (by simp) rfl
  | moved action progress move => exact h.of_move hc progress move
  | heardEvent progress hears =>
    obtain ⟨ha, hfor⟩ := h.contender _ progress
    refine of_contender h.attached (ha.of_hearEvent hears) ?_
    obtain ⟨s, r, seen, -, -, rfl⟩ := hearEvent?_eq_some hears
    exact hfor
  | heardWatch progress hears =>
    obtain ⟨ha, hfor⟩ := h.contender _ progress
    refine of_contender h.attached (ha.of_hearWatch hears) ?_
    obtain ⟨-, -, rfl⟩ := hearWatch?_eq_some hears
    exact hfor
  | aborted => exact ⟨h.attached, h.elsewhere, h.contender, h.numbered⟩
  | detached => exact ⟨h.attached, h.elsewhere, h.contender, h.numbered⟩

end IsSound

namespace Step

theorem request_eq (hs : Step now c i call x call' ch) : call'.request = call.request := by
  cases hs <;> rfl

theorem allows (hs : Step now c i call x call' ch) : c.Allows ch := by
  cases hs with
  | moved action progress move => exact move.allows
  | _ => trivial

/-- The node of a call whose contender moves. -/
theorem node?_ofAcquisition (call : LockCall) {a : Acquisition} (hs : a.IsStaged) :
    ({ call with progress := ofAcquisition call.request a } : LockCall).node? = a.node? ∨
      ({ call with progress := ofAcquisition call.request a } : LockCall).node? = none := by
  rcases ofAcquisition_cases call.request hs with ⟨node, -, hnode, heq⟩ | heq | heq
  · left
    rw [heq, hnode]
    rfl
  · right
    rw [heq]
    rfl
  · left
    rw [heq]
    rfl

/-- After a step a call has a node of a number that is new, the node that it had, or none. -/
theorem node?_cases (hs : Step now c i call x call' ch) (h : call.IsSound c) :
    (∃ identity directory, ch = .node identity directory ∧ call.IsFor directory ∧
        call'.node? = some (nodePath directory (c.coordinator.nextNumber directory))) ∨
      call'.node? = call.node? ∨ call'.node? = none := by
  cases hs with
  | begun progress =>
    right
    right
    rcases begin_cases call.request now c with ⟨directory, deadline, -, heq⟩ | ⟨outcome, heq, hlock⟩
    · rw [heq]
      rfl
    · rw [heq]
      exact heldNode?_of_over rfl hlock
  | gone aborted outcome => exact .inr (.inr rfl)
  | @moved _ a a' _ action progress move =>
    obtain ⟨ha, hfor⟩ := h.contender a progress
    have hnode := node?_ofAcquisition call (move.isStaged ha.heard ha.staged)
    rw [node?_of_shared progress]
    rcases hnode with hnode | hnode
    · rw [hnode]
      rcases move.node?_cases ha.heard ha.staged with ⟨s, hs, hch, hnew⟩ | hkept
      · exact .inl ⟨s.identity, a.directory, hch, hfor, hnew⟩
      · exact .inr hkept
    · exact .inr (.inr hnode)
  | heardEvent progress hears =>
    obtain ⟨s, r, seen, -, -, rfl⟩ := hearEvent?_eq_some hears
    rw [node?_of_shared progress]
    exact .inr (.inl rfl)
  | heardWatch progress hears =>
    obtain ⟨-, -, rfl⟩ := hearWatch?_eq_some hears
    rw [node?_of_shared progress]
    exact .inr (.inl rfl)
  | aborted => exact .inr (.inl rfl)
  | detached => exact .inr (.inl rfl)

/-- A call removes nothing by path but its own node. -/
theorem node?_of_removal {path : String} (hs : Step now c i call x call' (.removal path))
    (h : call.IsSound c) : call.node? = some path := by
  generalize hch : ServiceChange.removal path = ch at hs
  cases hs with
  | moved action progress move =>
    subst hch
    obtain ⟨ha, -⟩ := h.contender _ progress
    rw [node?_of_shared progress]
    exact (move.removal_cases ha.staged).1
  | _ => cases hch

/-- A call acquires a lock by a step of its own, with a listing that has its node in front. -/
theorem grant (hs : Step now c i call x call' ch) (h : call.IsSound c)
    (hold : call.heldNode? = none) (hnew : call'.heldNode? = some node) :
    x = .task (.call i) ∧ ch = .none ∧ ∃ a, call.progress = .shared a ∧ a.stage = .listing node ∧
      c.IsConnected a.client ∧
      NodePosition.of (nameOf node) (c.coordinator.childNames a.directory) = .first := by
  cases hs with
  | begun progress =>
    rcases begin_cases call.request now c with ⟨directory, deadline, -, heq⟩ | ⟨outcome, heq, hlock⟩
    · rw [heq] at hnew
      cases hnew
    · rw [heq, heldNode?_of_over rfl hlock] at hnew
      cases hnew
  | gone aborted outcome => cases hnew
  | @moved _ a a' _ action progress move =>
    obtain ⟨ha, -⟩ := h.contender a progress
    have hstaged := move.isStaged ha.heard ha.staged
    rcases ofAcquisition_cases call.request hstaged with ⟨own, hstage, -, heq⟩ | heq | heq
    · rw [heq] at hnew
      cases hnew
      obtain ⟨hlisting, hconnected, hfirst, hch⟩ := move.grant ha.heard ha.staged hstage
      rcases action with ⟨rfl, -⟩ | ⟨-, hwithdrawing⟩
      · exact ⟨rfl, hch, a, progress, hlisting, hconnected, hfirst⟩
      · rw [hstage] at hwithdrawing
        cases hwithdrawing
    · rw [heq] at hnew
      cases hnew
    · rw [heq] at hnew
      cases hnew
  | heardEvent progress hears => cases hnew
  | heardWatch progress hears => cases hnew
  | aborted => exact absurd (hold.symm.trans hnew) (by simp)
  | detached => exact absurd (hold.symm.trans hnew) (by simp)

/-- A lock that was acquired stays the outcome of its call. -/
theorem heldNode?_eq (hs : Step now c i call x call' ch) (hn : call.heldNode? = some node) :
    call'.heldNode? = some node := by
  have hout : call.outcome? ≠ none := by
    intro h
    rw [heldNode?_of_outcome h] at hn
    cases hn
  cases hs with
  | begun progress =>
    refine absurd ?_ hout
    rw [outcome?, progress]
  | gone aborted outcome => exact absurd outcome hout
  | moved action progress move =>
    rw [heldNode?_of_shared progress] at hn
    cases hn
  | heardEvent progress hears =>
    rw [heldNode?_of_shared progress] at hn
    cases hn
  | heardWatch progress hears =>
    rw [heldNode?_of_shared progress] at hn
    cases hn
  | aborted => exact hn
  | detached => exact hn

end Step

end LockCall

end DurableQueue
