import DurableQueue.Proofs.Dispatch.Run
import DurableQueue.Proofs.Dispatch.Terms
import DurableQueue.Proofs.Lists

/-!
Dispatchers that keep to the terms.

A dispatcher holds claims in its queue, in its claim loop and in its attempts, and a call that
processes a batch holds some too. All of them were handed out by the store and have attempts to spare,
and what an attempt is about to store respects the terms: this is `Bus.IsWithin`. Every step of every
task keeps it, and does to the store only what respects the terms. `Node.Keeps` says so of the steps
of one dispatcher, and `Bus.Keeps` of a bus.
-/

namespace DurableQueue

variable {t : RetryTerms}

/-- An operation that anyone may do under the terms: claims are resolved by dispatchers only. -/
def StoreOp.IsOrdinary (t : RetryTerms) : StoreOp → Prop
  | .update _ _ => False
  | .reap p => t.Governs p
  | _ => True

theorem StoreOp.IsOrdinary.respects {op : StoreOp} (h : op.IsOrdinary t) : op.Respects t := by
  cases op with
  | update claimed next => exact h.elim
  | reap p => exact h
  | _ => trivial

/-- An effect that operates on the store as anyone may. -/
def Effect.IsOrdinary (t : RetryTerms) : Effect → Prop
  | .operate op => op.IsOrdinary t
  | _ => True

/-- Handlers all of whose effects have a property, whatever they are given. -/
def Registry.Does (p : Effect → Prop) (r : Registry) : Prop :=
  ∀ h ∈ r.handlers, ∀ deliveries event context,
    ∀ effect ∈ (h.handler.react deliveries event context).effects, p effect

/-- Handlers whose effects are ordinary, whatever they are given. -/
def Registry.IsOrdinary (t : RetryTerms) (r : Registry) : Prop :=
  ∀ h ∈ r.handlers, ∀ deliveries event context,
    ∀ effect ∈ (h.handler.react deliveries event context).effects, effect.IsOrdinary t

/-- A configuration that keeps to the terms. -/
structure DispatchConfig.IsOn (t : RetryTerms) (c : DispatchConfig) : Prop where
  limit : c.retryPolicy.maxFailureRetries = t.limit
  penalty : c.penalizeReaped = true → t.penalty = true

theorem DispatchConfig.IsOn.governs {c : DispatchConfig} (h : c.IsOn t) : t.Governs c.reapPolicy :=
  ⟨h.limit, h.penalty⟩

/-- The claim of an attempt has attempts to spare, and what the attempt does and is about to store
respects the terms. -/
def Attempt.IsWithin (t : RetryTerms) : Attempt → Prop
  | .handling e effects _ | .sleeping e _ effects _ =>
    e.errorCount < t.limit ∧ ∀ effect ∈ effects, effect.IsOrdinary t
  | .judged e _ => e.errorCount < t.limit
  | .storing _ next _ => next.IsResolution t
  | .booking _ _ => True

def Progress.IsWithin (t : RetryTerms) : Progress → Prop
  | .going a => a.IsWithin t
  | _ => True

def Worker.IsWithin (t : RetryTerms) : Worker → Prop
  | .busy a => a.IsWithin t
  | _ => True

def ClaimLoop.IsWithin (t : RetryTerms) : ClaimLoop → Prop
  | .sending rest _ => ∀ e ∈ rest, e.errorCount < t.limit
  | _ => True

/-- A dispatcher that keeps to the terms. -/
structure Node.IsWithin (t : RetryTerms) (n : Node) : Prop where
  config : n.config.IsOn t
  registry : n.registry.IsOrdinary t
  queue : ∀ e ∈ n.queue, e.errorCount < t.limit
  workers : ∀ w ∈ n.workers, w.IsWithin t
  claimLoop : ∀ c ∈ n.claimLoop, c.IsWithin t

def ProcessStage.IsWithin (t : RetryTerms) : ProcessStage → Prop
  | .claiming => True
  | .between _ rest => ∀ e ∈ rest, e.errorCount < t.limit
  | .attempting _ a rest => a.IsWithin t ∧ ∀ e ∈ rest, e.errorCount < t.limit

def Call.IsWithin (t : RetryTerms) : Call → Prop
  | .process _ stage => stage.IsWithin t
  | _ => True

/-- A bus that keeps to the terms. -/
structure Bus.IsWithin (t : RetryTerms) (b : Bus) : Prop where
  store : b.hub.store.IsSound t
  nodes : ∀ n ∈ b.nodes, n.IsWithin t
  calls : ∀ c ∈ b.calls, c.IsWithin t

/-- A step of one dispatcher under the terms. -/
structure Node.Keeps (t : RetryTerms) (h h' : Hub) (n' : Node) : Prop where
  store : Store.Leads (StoreOp.Respects t) h.store h'.store
  node : n'.IsWithin t

/-- A step of a bus under the terms. -/
structure Bus.Keeps (t : RetryTerms) (b b' : Bus) : Prop where
  store : Store.Leads (StoreOp.Respects t) b.hub.store b'.hub.store
  bus : b'.IsWithin t

namespace Node

variable {n : Node} {h : Hub}

theorem Keeps.of_store_eq {h' : Hub} (hstore : h'.store = h.store) (hn : n.IsWithin t) :
    Keeps t h h' n :=
  ⟨hstore ▸ .refl _ _, hn⟩

theorem Keeps.of_apply {h' : Hub} (op : StoreOp) (now : Timestamp) (hop : op.Respects t)
    (hstore : h'.store = (h.store.apply op now).2) (hn : n.IsWithin t) : Keeps t h h' n :=
  ⟨hstore ▸ .of_apply hop _ _, hn⟩

namespace IsWithin

theorem unstarted {config : DispatchConfig} {registry : Registry} (hc : config.IsOn t)
    (hr : registry.IsOrdinary t) (id : NodeId) (clock : NodeClock) (isAttached : Bool) :
    (Node.unstarted id config registry clock isAttached).IsWithin t where
  config := hc
  registry := hr
  queue := by simp [Node.unstarted]
  workers := by simp [Node.unstarted]
  claimLoop := by simp [Node.unstarted]

theorem count (hn : n.IsWithin t) (f : DispatchStats → DispatchStats) : (n.count f).IsWithin t :=
  ⟨hn.config, hn.registry, hn.queue, hn.workers, hn.claimLoop⟩

theorem withClaimLoop (hn : n.IsWithin t) (c : ClaimLoop) (hc : c.IsWithin t) :
    (n.withClaimLoop c).IsWithin t :=
  ⟨hn.config, hn.registry, hn.queue, hn.workers, by simpa [Node.withClaimLoop] using hc⟩

theorem withWorker (hn : n.IsWithin t) (i : Nat) (w : Worker) (hw : w.IsWithin t) :
    (n.withWorker i w).IsWithin t where
  config := hn.config
  registry := hn.registry
  queue := hn.queue
  workers := forall_mem_set hn.workers hw i
  claimLoop := hn.claimLoop

theorem leave (hn : n.IsWithin t) : (Attempt.leave n).IsWithin t := hn.count _

end IsWithin

end Node

theorem Hub.store_operate (h : Hub) (op : StoreOp) :
    (h.operate op).2.store = (h.store.apply op h.time).2 := by
  cases op with
  | append new =>
    simp only [Hub.operate, Hub.append, Store.apply, Store.Outcome.snd_map]
    rcases h.store.append new h.time with ⟨_ | _, s⟩ <;> rfl
  | _ => rfl

namespace Registry

variable {r : Registry} {p : Effect → Prop}

theorem Does.remember (hr : r.Does p) (eventType : String) (d : Delivery) :
    (r.remember eventType d).Does p := by
  intro h' hh'
  obtain ⟨h, hh, rfl⟩ := List.mem_map.mp hh'
  split <;> exact hr h hh

theorem Does.prepare (hr : r.Does p) {e : Entry} {activity : Activity}
    (h : r.prepare e = .ok activity) : ∀ effect ∈ activity.effects, p effect := by
  unfold Registry.prepare at h
  split at h
  · cases h
  · rename_i registered hfind
    split at h
    · cases h
    · cases h
      exact hr registered (List.mem_of_find?_eq_some hfind) _ _ _

theorem IsOrdinary.remember (hr : r.IsOrdinary t) (eventType : String) (d : Delivery) :
    (r.remember eventType d).IsOrdinary t :=
  Does.remember hr eventType d

theorem IsOrdinary.prepare (hr : r.IsOrdinary t) {e : Entry} {activity : Activity}
    (h : r.prepare e = .ok activity) : ∀ effect ∈ activity.effects, effect.IsOrdinary t :=
  Does.prepare hr h

end Registry

theorem RetryPolicy.lt_of_decide_eq_retry {p : RetryPolicy} {draw : Draw} {count : UInt32}
    {failedAt time : Timestamp} (h : p.decide draw count failedAt = some (.retry time)) :
    count < p.maxFailureRetries := by
  unfold RetryPolicy.decide at h
  split at h
  · cases h
  · rename_i hlimit
    exact UInt32.not_le.mp hlimit

/-- What is built for a claim with attempts to spare respects the terms. -/
theorem DispatchOutcome.isResolution_nextEntry {outcome : DispatchOutcome} {policy : RetryPolicy}
    {draw : Draw} {claimed next : Entry} {now : Timestamp} (hp : policy.maxFailureRetries = t.limit)
    (hc : claimed.errorCount < t.limit)
    (h : outcome.nextEntry policy draw claimed now = some next) : next.IsResolution t := by
  cases outcome with
  | processed =>
    obtain rfl := Option.some.inj h
    exact ⟨UInt32.le_of_lt hc, by simp, by simp⟩
  | undecodable reason =>
    obtain rfl := Option.some.inj h
    exact ⟨countFailure_le hc, by simp, by simp⟩
  | handlerFailed detail =>
    obtain ⟨decision, hdecide, rfl⟩ := Option.map_eq_some_iff.mp h
    cases decision with
    | retry time =>
      have hlt := RetryPolicy.lt_of_decide_eq_retry hdecide
      rw [hp] at hlt
      exact ⟨UInt32.le_of_lt hlt, fun _ => hlt, by simp⟩
    | giveUp reason => exact ⟨countFailure_le hc, by simp, by simp⟩

namespace Attempt

variable {n n' : Node} {h h' : Hub} {e : Entry}

theorem isWithin_begin_ (hn : n.IsWithin t) (he : e.errorCount < t.limit) :
    (begin_ n e).1.IsWithin t ∧ (begin_ n e).2.IsWithin t := by
  have hcount := hn.count fun s => { s with inFlight := s.inFlight + 1 }
  unfold begin_
  simp only
  split
  · rename_i activity hprepare
    exact ⟨⟨he, hn.registry.prepare hprepare⟩, hcount⟩
  · exact ⟨he, hcount⟩

theorem keeps_perform (hn : n.IsWithin t) {effect : Effect} (heffect : effect.IsOrdinary t)
    (h : Hub) (e : Entry) :
    Node.Keeps t h (perform h n e effect).1 (perform h n e effect).2 := by
  cases effect with
  | note note => exact .of_store_eq rfl hn
  | sleep s => exact .of_store_eq rfl hn
  | remember d =>
    exact .of_store_eq rfl ⟨hn.config, hn.registry.remember _ _, hn.queue, hn.workers, hn.claimLoop⟩
  | operate op => exact .of_apply op h.time heffect.respects (h.store_operate op) hn

theorem keeps_store (hn : n.IsWithin t) {next : Entry} (hnext : next.IsResolution t) (h : Hub)
    (e : Entry) (outcome : DispatchOutcome) :
    Node.Keeps t h (store h n e next outcome).2.1 (store h n e next outcome).2.2 ∧
      (store h n e next outcome).1.IsWithin t := by
  unfold store
  split
  · exact ⟨.of_store_eq rfl hn.leave, trivial⟩
  · refine ⟨.of_apply (.update e next) h.time hnext ?_ hn, trivial⟩
    exact (Store.Outcome.snd_map _ _).symm

/-- A step of an attempt keeps to the terms. -/
theorem keeps_step? {a : Attempt} {draw : Draw} {p : Progress} (hn : n.IsWithin t)
    (ha : a.IsWithin t) (hstep : a.step? draw h n = some (p, h', n')) :
    Node.Keeps t h h' n' ∧ p.IsWithin t := by
  cases a with
  | handling e effects result =>
    obtain ⟨he, heffects⟩ := ha
    cases effects with
    | nil =>
      cases hstep
      exact ⟨.of_store_eq rfl hn, he⟩
    | cons effect rest =>
      have hrest : ∀ f ∈ rest, f.IsOrdinary t := fun f hf =>
        heffects f (List.mem_cons_of_mem _ hf)
      cases effect with
      | sleep s =>
        cases hstep
        exact ⟨.of_store_eq rfl hn, he, hrest⟩
      | _ =>
        cases hstep
        exact ⟨keeps_perform hn (heffects _ (List.mem_cons_self ..)) h e, he, hrest⟩
  | sleeping e wakeAt effects result =>
    simp only [step?] at hstep
    split at hstep
    · cases hstep
      exact ⟨.of_store_eq rfl hn, ha⟩
    · cases hstep
  | judged e outcome =>
    simp only [step?] at hstep
    split at hstep
    · rename_i next hnext
      cases hstep
      exact ⟨.of_store_eq rfl hn, DispatchOutcome.isResolution_nextEntry hn.config.limit ha hnext⟩
    · cases hstep
      exact ⟨.of_store_eq rfl hn.leave, trivial⟩
  | storing e next outcome =>
    have hkeeps := keeps_store hn ha h e outcome
    rw [Option.some.inj hstep] at hkeeps
    exact hkeeps
  | booking e verdict =>
    cases hstep
    exact ⟨.of_store_eq rfl (hn.count _).leave, trivial⟩

end Attempt

namespace ClaimManager

variable {m : ClaimManager} {s : Store} {now : Timestamp}

theorem snd_report {α : Type} (o : Store.Outcome α) : (report o).2 = o.2 := by
  obtain ⟨_ | _, s⟩ := o <;> rfl

theorem report_eq_ok {α : Type} {o : Store.Outcome α} {a : α} (h : (report o).1 = .ok a) :
    o.1 = .ok a := by
  obtain ⟨_ | b, s⟩ := o
  · cases h
  · exact congrArg Except.ok (Except.ok.inj h)

theorem snd_claim (m : ClaimManager) (s : Store) (count : Nat) (now : Timestamp) :
    (m.claim s count now).2 = (s.apply (.claim count m.node m.ownerFilter) now).2 := by
  rw [claim, snd_report]
  exact (Store.Outcome.snd_map _ _).symm

theorem snd_reap (m : ClaimManager) (s : Store) (now : Timestamp) :
    (m.reap s now).2 = (s.apply (.reap m.reapPolicy) now).2 := by
  rw [reap, snd_report]
  exact (Store.Outcome.snd_map _ _).symm

/-- What a dispatcher claims has attempts to spare. -/
theorem spare_of_claim (hs : s.IsSound t) (ht : 0 < t.limit) {count : Nat} {es : List Entry}
    (h : (m.claim s count now).1 = .ok es) : ∀ e ∈ es, e.errorCount < t.limit := by
  have hok := report_eq_ok h
  have hanswer : (s.apply (.claim count m.node m.ownerFilter) now).1 = .ok (.entries es) := by
    simp only [Store.apply]
    rcases hclaim : s.claim count m.node m.ownerFilter now with ⟨_ | _, s'⟩
    · rw [hclaim] at hok
      cases hok
    · rw [hclaim] at hok
      rw [Except.ok.inj hok]
      rfl
  have hop : (StoreOp.claim count m.node m.ownerFilter).Respects t := trivial
  intro e he
  refine hs.spare_of_handedOut ht hop now ?_
  rw [hanswer]
  exact he

end ClaimManager

namespace Node

variable {n n' : Node} {h h' : Hub}

/-- A dispatcher that claims. -/
theorem keeps_claim {m : ClaimManager} {count : Nat} {now : Timestamp}
    (hstore : h'.store = (m.claim h.store count now).2) (hn : n.IsWithin t) : Keeps t h h' n := by
  rw [ClaimManager.snd_claim] at hstore
  exact .of_apply (.claim count m.node m.ownerFilter) now trivial hstore hn

/-- A dispatcher that takes back orphaned claims. -/
theorem keeps_reap {m : ClaimManager} {now : Timestamp} (hm : t.Governs m.reapPolicy)
    (hstore : h'.store = (m.reap h.store now).2) (hn : n.IsWithin t) : Keeps t h h' n := by
  rw [ClaimManager.snd_reap] at hstore
  exact .of_apply (.reap m.reapPolicy) now hm hstore hn

/-- A dispatcher that hands back its claims. -/
theorem keeps_release {id : NodeId} {now : Timestamp}
    (hstore : h'.store = (h.store.release id now).2) (hn : n.IsWithin t) : Keeps t h h' n := by
  have happly : (h.store.apply (.release id) now).2 = (h.store.release id now).2 :=
    Store.Outcome.snd_map _ _
  exact .of_apply (.release id) now trivial (hstore.trans happly.symm) hn

end Node

end DurableQueue
