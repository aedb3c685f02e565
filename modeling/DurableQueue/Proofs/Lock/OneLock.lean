import DurableQueue.Proofs.Lists
import DurableQueue.Proofs.Lock.CallInvariant
import DurableQueue.Proofs.Lock.OneContender
import DurableQueue.Proofs.Lock.OneSlot

/-!
A locker and what of it belongs to one lock.

`Locker.Shows` ties a locker to another one in which nobody ever did anything about other locks: it has the
calls that ask for this one, in their order, the locks of its path and the part of the service in its
directory. What a call, a listener or a deletion does there shows in the other locker as the same step, and
what is done about other locks does not show.
-/

namespace DurableQueue

open Coordinator

namespace LockRequest

def name (r : LockRequest) : LockName := ⟨r.service, r.key⟩

def isOn (p : LockName) (r : LockRequest) : Bool := r.name == p

/-- Whether a request is for the lock of a directory. -/
def IsFor (r : LockRequest) (directory : String) : Prop := lockDirectory r.service r.key = .ok directory

theorem IsFor.eq_directory_iff {r : LockRequest} {d : String} (h : r.IsFor d) (p : LockName) :
    d = p.directory ↔ r.isOn p = true := by
  rw [directory_eq_iff h p, isOn, beq_iff_eq]
  rfl

theorem IsFor.ne_directory {r : LockRequest} {d : String} {p : LockName} (h : r.IsFor d)
    (hoff : r.isOn p = false) :
    d ≠ p.directory := fun heq => by
  rw [(h.eq_directory_iff p).mp heq] at hoff
  cases hoff

end LockRequest

/-- The place of a lock that is held is that of the request. -/
def LockHold.IsAtHome (r : LockRequest) : LockHold → Prop
  | inProcess path => r.IsFor path
  | shared _ node => r.IsFor (parentOf node)

namespace LockProgress

/-- All that a call has to do with is the lock for which it asks. -/
def IsAtHome (r : LockRequest) : LockProgress → Prop
  | inProcess w => r.IsFor w.path
  | shared a => r.IsFor a.directory ∧ a.IsAtHome
  | «over» (.acquired lock) => lock.hold.IsAtHome r
  | _ => True

/-- As far as another call, at queues and watches by other numbers. -/
inductive Alike (Q W : Nat → Nat → Prop) : LockProgress → LockProgress → Prop where
  | fresh : Alike Q W .fresh .fresh
  | inProcess {w w' : LocalWait} (wait : w.Alike Q w') : Alike Q W (.inProcess w) (.inProcess w')
  | shared {a a' : Acquisition} (contender : a.Alike W a') : Alike Q W (.shared a) (.shared a')
  | «over» (outcome : LockOutcome) : Alike Q W (.over outcome) (.over outcome)
  | gone : Alike Q W .gone .gone

theorem Alike.imp {Q W Q' W' : Nat → Nat → Prop} {g g' : LockProgress} (h : Alike Q W g g')
    (hQ : ∀ n n', Q n n' → Q' n n') (hW : ∀ w w', W w w' → W' w w') : Alike Q' W' g g' := by
  cases h with
  | fresh => exact .fresh
  | inProcess wait => exact .inProcess (wait.imp hQ)
  | shared contender => exact .shared (contender.imp hW)
  | «over» outcome => exact .over outcome
  | gone => exact .gone

end LockProgress

namespace LockCall

/-- The same call, at queues and watches by other numbers. -/
structure Alike (Q W : Nat → Nat → Prop) (c c' : LockCall) : Prop where
  request : c'.request = c.request
  progress : c.progress.Alike Q W c'.progress
  isAborted : c'.isAborted = c.isAborted
  isDetached : c'.isDetached = c.isDetached

theorem Alike.outcome?_eq {Q W : Nat → Nat → Prop} {c c' : LockCall} (h : c.Alike Q W c') :
    c'.outcome? = c.outcome? := by
  have hprogress := h.progress
  unfold outcome?
  generalize c.progress = g, c'.progress = g' at hprogress
  cases hprogress <;> rfl

/-- The number of a call among those that ask for a lock. -/
def Numbered (p : LockName) (calls : List LockCall) (i i' : Nat) : Prop :=
  Ranked (LockRequest.isOn p) (calls.map request) i i'

theorem isOneToOne_numbered (p : LockName) (calls : List LockCall) : IsOneToOne (Numbered p calls) :=
  fun _ _ _ _ h h' => h.eq_iff h'

/-- The calls that ask for a lock, among all calls and by themselves. `E` says which queues are elsewhere. -/
structure Shown (p : LockName) (Q W : Nat → Nat → Prop) (E : Nat → Prop) (calls calls' : List LockCall) :
    Prop where
  count : calls'.length = (calls.map request).countP (LockRequest.isOn p)
  only : ∀ c' ∈ calls', c'.request.isOn p = true
  alike : ∀ i i', Numbered p calls i i' → ∃ c c', calls[i]? = some c ∧ calls'[i']? = some c' ∧ c.Alike Q W c'
  elsewhere : ∀ c ∈ calls, c.request.isOn p = false → ∀ w n, c.progress = .inProcess w →
    w.stage.queue? = some n → E n
  home : ∀ c ∈ calls, c.progress.IsAtHome c.request

namespace Shown

variable {p : LockName} {Q W Q' W' : Nat → Nat → Prop} {E E' : Nat → Prop} {calls calls' : List LockCall}
  {i i' : Nat}
  {c c' c₁ c₁' : LockCall}

theorem nil : Shown p Q W E [] [] where
  count := rfl
  only _ hc' := absurd hc' List.not_mem_nil
  alike i _ hi := absurd hi.lt_length (Nat.not_lt_zero i)
  elsewhere _ hc := absurd hc List.not_mem_nil
  home _ hc := absurd hc List.not_mem_nil

theorem imp (h : Shown p Q W E calls calls') (hQ : ∀ n n', Q n n' → Q' n n') (hW : ∀ w w', W w w' → W' w w')
    (hE : ∀ n, E n → E' n) : Shown p Q' W' E' calls calls' where
  count := h.count
  only := h.only
  alike i i' hi := by
    obtain ⟨c, c', hc, hc', halike⟩ := h.alike i i' hi
    exact ⟨c, c', hc, hc', { halike with progress := halike.progress.imp hQ hW }⟩
  elsewhere c hc hon w n hw hn := hE n (h.elsewhere c hc hon w n hw hn)
  home := h.home

theorem numbered_set (hi : calls[i]? = some c) (hrequest : c₁.request = c.request) {j j' : Nat} :
    Numbered p (calls.set i c₁) j j' ↔ Numbered p calls j j' := by
  rw [Numbered, Numbered, map_set_of_eq hi hrequest]

theorem isOn_of_numbered (hnumber : Numbered p calls i i') (hi : calls[i]? = some c) :
    c.request.isOn p = true := by
  have hkind := hnumber.kind
  rwa [List.getElem?_map, hi] at hkind

/-- A call on the lock goes on. -/
theorem set (h : Shown p Q W E calls calls') (hnumber : Numbered p calls i i') (hi : calls[i]? = some c)
    (hi' : calls'[i']? = some c') (hrequest : c₁.request = c.request) (halike : c₁.Alike Q W c₁')
    (hhome : c₁.progress.IsAtHome c₁.request) : Shown p Q W E (calls.set i c₁) (calls'.set i' c₁') := by
  have hon : c₁.request.isOn p = true := hrequest ▸ isOn_of_numbered hnumber hi
  refine ⟨?_, forall_mem_set h.only (halike.request ▸ hon) i', fun j j' hj => ?_, ?_,
    forall_mem_set h.home hhome i⟩
  · rw [List.length_set, h.count, map_set_of_eq hi hrequest]
  · rw [numbered_set hi hrequest] at hj
    by_cases heq : i = j
    · subst heq
      obtain rfl := (hnumber.eq_iff hj).mp rfl
      exact ⟨c₁, c₁', getElem?_set_of_some hi c₁, getElem?_set_of_some hi' c₁', halike⟩
    · have hne : i' ≠ j' := fun heq' => heq ((hnumber.eq_iff hj).mpr heq')
      rw [List.getElem?_set_ne heq, List.getElem?_set_ne hne]
      exact h.alike j j' hj
  · exact forall_mem_set h.elsewhere (fun hoff => by rw [hon] at hoff; cases hoff) i

/-- A call on another lock goes on. -/
theorem set_elsewhere (h : Shown p Q W E calls calls') (hi : calls[i]? = some c)
    (hoff : c.request.isOn p = false)
    (hrequest : c₁.request = c.request)
    (hc₁ : ∀ w n, c₁.progress = .inProcess w → w.stage.queue? = some n → E n)
    (hhome : c₁.progress.IsAtHome c₁.request) : Shown p Q W E (calls.set i c₁) calls' := by
  refine ⟨?_, h.only, fun j j' hj => ?_, forall_mem_set h.elsewhere (fun _ => hc₁) i,
    forall_mem_set h.home hhome i⟩
  · rw [h.count, map_set_of_eq hi hrequest]
  · rw [numbered_set hi hrequest] at hj
    have hne : i ≠ j := by
      rintro rfl
      rw [isOn_of_numbered hj hi] at hoff
      cases hoff
    rw [List.getElem?_set_ne hne]
    exact h.alike j j' hj

/-- A call on the lock is made. -/
theorem concat (h : Shown p Q W E calls calls') {r : LockRequest} (hon : r.isOn p = true) :
    Shown p Q W E (calls ++ [ofRequest r]) (calls' ++ [ofRequest r]) := by
  have hrequests : (calls ++ [ofRequest r]).map request = calls.map request ++ [r] := List.map_append
  refine ⟨?_, fun c' hc' => ?_, fun j j' hj => ?_, fun c hc hoff => ?_, fun c hc => ?_⟩
  · rw [hrequests, List.countP_append, List.length_append, h.count, List.countP_singleton, hon]
    rfl
  · rcases List.mem_append.mp hc' with hc' | hc'
    · exact h.only c' hc'
    · rw [List.mem_singleton.mp hc']
      exact hon
  · rw [Numbered, hrequests] at hj
    rcases hj.concat_cases with hj | ⟨rfl, rfl, -⟩
    · obtain ⟨c, c', hc, hc', halike⟩ := h.alike j j' hj
      exact ⟨c, c', by rwa [List.getElem?_append_left (List.getElem?_eq_some_iff.mp hc).1],
        by rwa [List.getElem?_append_left (List.getElem?_eq_some_iff.mp hc').1], halike⟩
    · rw [List.length_map, ← h.count]
      exact ⟨_, _, List.getElem?_concat_length, List.getElem?_concat_length, ⟨rfl, .fresh, rfl, rfl⟩⟩
  · rcases List.mem_append.mp hc with hc | hc
    · exact h.elsewhere c hc hoff
    · rw [List.mem_singleton.mp hc]
      exact nofun
  · rcases List.mem_append.mp hc with hc | hc
    · exact h.home c hc
    · rw [List.mem_singleton.mp hc]
      trivial

/-- A call on another lock is made. -/
theorem concat_elsewhere (h : Shown p Q W E calls calls') {r : LockRequest} (hoff : r.isOn p = false) :
    Shown p Q W E (calls ++ [ofRequest r]) calls' := by
  have hrequests : (calls ++ [ofRequest r]).map request = calls.map request ++ [r] := List.map_append
  refine ⟨?_, h.only, fun j j' hj => ?_, fun c hc hoff => ?_, fun c hc => ?_⟩
  · rw [hrequests, List.countP_append, h.count, List.countP_singleton, hoff]
    rfl
  · rw [Numbered, hrequests] at hj
    rcases hj.concat_cases with hj | ⟨-, -, hon⟩
    · obtain ⟨c, c', hc, hc', halike⟩ := h.alike j j' hj
      exact ⟨c, c', by rwa [List.getElem?_append_left (List.getElem?_eq_some_iff.mp hc).1], hc', halike⟩
    · rw [hoff] at hon
      cases hon
  · rcases List.mem_append.mp hc with hc | hc
    · exact h.elsewhere c hc hoff
    · rw [List.mem_singleton.mp hc]
      exact nofun
  · rcases List.mem_append.mp hc with hc | hc
    · exact h.home c hc
    · rw [List.mem_singleton.mp hc]
      trivial

end Shown

end LockCall

namespace Coordination

/-- What every change of a service keeps. -/
structure IsTidy (c : Coordination) : Prop where
  faultless : c.IsFaultless
  sorted : IsSorted c.coordinator.nodes

theorem IsTidy.after {c : Coordination} (h : c.IsTidy) (ch : ServiceChange) : (c.after ch).IsTidy := by
  have hclient (session : Nat) (coordinator : Coordinator) :
      IsFaultless ⟨coordinator, c.clients ++ [⟨session, []⟩]⟩ := by
    intro cl hcl
    rcases List.mem_append.mp hcl with hcl | hcl
    · exact h.faultless cl hcl
    · rw [List.mem_singleton.mp hcl]
  cases ch with
  | none => exact h
  | node identity directory => exact ⟨h.faultless, isSorted_insert _ h.sorted⟩
  | watch path => exact ⟨h.faultless, h.sorted⟩
  | removal path => exact ⟨h.faultless, isSorted_removeAll _ _ h.sorted⟩
  | session change session =>
    refine ⟨h.faultless, ?_⟩
    cases change with
    | disconnected => exact h.sorted
    | reconnected => exact h.sorted
    | expired =>
      show IsSorted (c.coordinator.expire session).nodes
      cases hs : c.coordinator.sessions[session]? with
      | none =>
        rw [expire_of_none hs]
        exact h.sorted
      | some gone =>
        rw [expire_of_some hs]
        exact isSorted_removeAll c.coordinator _ h.sorted
  | opening => exact ⟨hclient _ _, h.sorted⟩
  | cloning client => exact ⟨hclient _ _, h.sorted⟩

end Coordination

namespace Locker

/-- A locker, and one in which all that was done is about this lock. `Q` says which numbers queues have
there. -/
structure Shows (p : LockName) (Q : Nat → Nat → Prop) (l l' : Locker) : Prop where
  backend : l'.backend = l.backend
  now : l'.now = l.now
  calls : LockCall.Shown p Q (l.coordination.coordinator.Watched p.directory)
    (l.locals.IsElsewhere Q) l.calls l'.calls
  locals : LocalLocks.Isolates p.directory (LockCall.Numbered p l.calls) Q l.locals l'.locals
  coordination : l'.coordination = l.coordination.only p.directory
  tidy : l.coordination.IsTidy
  cleanups : l'.cleanups = l.cleanups.filter fun k => parentOf k.node == p.directory

namespace Shows

variable {p : LockName} {Q Q' : Nat → Nat → Prop} {l l' : Locker} {i i' : Nat} {c c' : LockCall}
  {progress progress' : LockProgress} {lock : GlobalLock} {locals locals' : LocalLocks}

theorem empty (p : LockName) (backend : LockBackend) :
    Shows p (fun _ _ => False) (.empty backend) (.empty backend) where
  backend := rfl
  now := rfl
  calls := .nil
  locals := .empty _ _
  coordination := rfl
  tidy := ⟨nofun, .nil⟩
  cleanups := rfl

/-- Which tasks are ready does not matter. -/
theorem withQueue (h : Shows p Q l l') (queue queue' : List LockTask) :
    Shows p Q { l with queue } { l' with queue := queue' } :=
  ⟨h.backend, h.now, h.calls, h.locals, h.coordination, h.tidy, h.cleanups⟩

theorem refresh (h : Shows p Q l l') : Shows p Q l.refresh l'.refresh := h.withQueue _ _

theorem refresh_elsewhere (h : Shows p Q l l') : Shows p Q l.refresh l' := h.withQueue _ l'.queue

/-- The locks of the process change on both sides. -/
theorem withLocals (h : Shows p Q l l') (hgrows : l.locals.Grows Q Q')
    (hlength : l.locals.queues.length ≤ locals.queues.length)
    (hlocals : LocalLocks.Isolates p.directory (LockCall.Numbered p l.calls) Q' locals locals') :
    Shows p Q' { l with locals } { l' with locals := locals' } :=
  { h with
    calls := h.calls.imp hgrows.kept (fun _ _ hw => hw) fun _ hn => hn.grows hgrows hlength
    locals := hlocals }

theorem withLocals_elsewhere (h : Shows p Q l l') (hlength : l.locals.queues.length ≤ locals.queues.length)
    (hlocals : LocalLocks.Isolates p.directory (LockCall.Numbered p l.calls) Q locals l'.locals) :
    Shows p Q { l with locals } l' :=
  { h with
    calls := h.calls.imp (fun _ _ hn => hn) (fun _ _ hw => hw) fun _ hn => hn.grows (.refl _ Q) hlength
    locals := hlocals }

/-- The service changes on both sides. -/
theorem withCoordination (h : Shows p Q l l') {coordination : Coordination}
    (hafter : ∃ ch, coordination = l.coordination.after ch) :
    Shows p Q { l with coordination } { l' with coordination := coordination.only p.directory } := by
  obtain ⟨ch, rfl⟩ := hafter
  have hlater := Coordination.coordinator_later_after l.coordination ch
  exact { h with
    calls := h.calls.imp (fun _ _ hn => hn) (fun _ _ hw => hw.later hlater) fun _ hn => hn
    coordination := rfl
    tidy := h.tidy.after ch }

theorem withCoordination_elsewhere (h : Shows p Q l l') {coordination : Coordination}
    (hafter : ∃ ch, coordination = l.coordination.after ch)
    (honly : coordination.only p.directory = l.coordination.only p.directory) :
    Shows p Q { l with coordination } l' := by
  obtain ⟨ch, rfl⟩ := hafter
  have hlater := Coordination.coordinator_later_after l.coordination ch
  exact { h with
    calls := h.calls.imp (fun _ _ hn => hn) (fun _ _ hw => hw.later hlater) fun _ hn => hn
    coordination := h.coordination.trans honly.symm
    tidy := h.tidy.after ch }

/-- A call on the lock, and the same call by itself. -/
theorem exists_call (h : Shows p Q l l') (hnumber : LockCall.Numbered p l.calls i i') :
    ∃ c c', l.calls[i]? = some c ∧ l'.calls[i']? = some c' ∧
      c.Alike Q (l.coordination.coordinator.Watched p.directory) c' := h.calls.alike i i' hnumber

/-- A call on the lock changes on both sides. -/
theorem setCall (h : Shows p Q l l') (hnumber : LockCall.Numbered p l.calls i i') (hi : l.calls[i]? = some c)
    (hi' : l'.calls[i']? = some c') {c₁ c₁' : LockCall} (hrequest : c₁.request = c.request)
    (halike : c₁.Alike Q (l.coordination.coordinator.Watched p.directory) c₁')
    (hhome : c₁.progress.IsAtHome c.request) :
    Shows p Q { l with calls := l.calls.set i c₁ } { l' with calls := l'.calls.set i' c₁' } :=
  { h with
    calls := h.calls.set hnumber hi hi' hrequest halike (hrequest ▸ hhome)
    locals := h.locals.imp fun _ _ hj => (LockCall.Shown.numbered_set hi hrequest).mpr hj }

theorem setCall_elsewhere (h : Shows p Q l l') (hi : l.calls[i]? = some c) (hoff : c.request.isOn p = false)
    {c₁ : LockCall} (hrequest : c₁.request = c.request)
    (hwait : ∀ w, c₁.progress = .inProcess w → w.IsElsewhere l.locals Q)
    (hhome : c₁.progress.IsAtHome c.request) : Shows p Q { l with calls := l.calls.set i c₁ } l' :=
  { h with
    calls := h.calls.set_elsewhere hi hoff hrequest (fun w n hw hn => hwait w hw n hn) (hrequest ▸ hhome)
    locals := h.locals.imp fun _ _ hj => (LockCall.Shown.numbered_set hi hrequest).mpr hj }

theorem setProgress (h : Shows p Q l l') (hnumber : LockCall.Numbered p l.calls i i')
    (hi : l.calls[i]? = some c)
    (hi' : l'.calls[i']? = some c') (halike : c.Alike Q (l.coordination.coordinator.Watched p.directory) c')
    (hprogress : progress.Alike Q (l.coordination.coordinator.Watched p.directory) progress')
    (hhome : progress.IsAtHome c.request) :
    Shows p Q (l.setProgress i progress) (l'.setProgress i' progress') := by
  rw [Locker.setProgress, Locker.setProgress, modify_eq_set_of_getElem? hi, modify_eq_set_of_getElem? hi']
  exact h.setCall hnumber hi hi' rfl { halike with progress := hprogress } hhome

theorem setProgress_elsewhere (h : Shows p Q l l') (hi : l.calls[i]? = some c)
    (hoff : c.request.isOn p = false)
    (hwait : ∀ w, progress = .inProcess w → w.IsElsewhere l.locals Q) (hhome : progress.IsAtHome c.request) :
    Shows p Q (l.setProgress i progress) l' := by
  rw [Locker.setProgress, modify_eq_set_of_getElem? hi]
  exact h.setCall_elsewhere hi hoff rfl hwait hhome

theorem unlock (h : Shows p Q l l') :
    Shows p Q { l with locals := l.locals.unlock p.directory }
      { l' with locals := l'.locals.unlock p.directory } :=
  h.withLocals (.refl _ Q) (Nat.le_of_eq (LocalLocks.length_unlock _ _).symm) h.locals.unlock

theorem unlock_elsewhere (h : Shows p Q l l') {path : String} (hpath : path ≠ p.directory) :
    Shows p Q { l with locals := l.locals.unlock path } l' :=
  h.withLocals_elsewhere (Nat.le_of_eq (LocalLocks.length_unlock _ _).symm) (h.locals.unlock_elsewhere hpath)

/-- The lock is dropped on both sides. -/
theorem drop (h : Shows p Q l l') {r : LockRequest} (hon : r.isOn p = true) (hlock : lock.hold.IsAtHome r) :
    Shows p Q (l.drop lock) (l'.drop lock) := by
  unfold Locker.drop
  cases hhold : lock.hold with
  | inProcess path =>
    rw [hhold] at hlock
    obtain rfl := (LockRequest.IsFor.eq_directory_iff hlock p).mpr hon
    exact h.unlock
  | shared client node =>
    rw [hhold] at hlock
    have hnode := (LockRequest.IsFor.eq_directory_iff hlock p).mpr hon
    exact { h with cleanups := by simp only [h.cleanups, List.filter_append]; simp [hnode] }

theorem drop_elsewhere (h : Shows p Q l l') {r : LockRequest} (hoff : r.isOn p = false)
    (hlock : lock.hold.IsAtHome r) :
    Shows p Q (l.drop lock) l' := by
  unfold Locker.drop
  cases hhold : lock.hold with
  | inProcess path =>
    rw [hhold] at hlock
    exact h.unlock_elsewhere (hlock.ne_directory hoff)
  | shared client node =>
    rw [hhold] at hlock
    exact { h with cleanups := by simp only [h.cleanups, List.filter_append]; simp [hlock.ne_directory hoff] }

end Shows

end Locker

end DurableQueue
