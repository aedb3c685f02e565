import DurableQueue.Proofs.Dispatch.NodeStep

/-!
What the tasks of a dispatcher do beside attempts.

Claim loop, reaper and shutdown claim, take back and hand back entries in the name of their dispatcher. They
begin no attempt and go on with none, and make nothing break down: they tend (`Node.Tends`).
-/

namespace DurableQueue

/-- An operation that a dispatcher makes on its own account. -/
def StoreOp.IsRoutine : StoreOp → Prop
  | .append _ | .claim _ _ _ | .reap _ | .release _ => True
  | _ => False

/-- A store after one routine operation at most. -/
def Store.Tended (s : Store) (now : Timestamp) (s' : Store) : Prop :=
  s' = s ∨ ∃ op, op.IsRoutine ∧ s' = (s.apply op now).2

/-- A step of a dispatcher that works on no attempt. -/
structure Node.Tends (h : Hub) (n : Node) (h' : Hub) (n' : Node) : Prop where
  store : h.store.Tended h.time h'.store
  unbroken : h.breakdowns = ⟨0, 0, 0⟩ → h'.breakdowns = ⟨0, 0, 0⟩
  workers : ∀ a, .busy a ∈ n'.workers → .busy a ∈ n.workers

namespace Store

variable {s : Store} {now : Timestamp}

theorem Tended.of_claim {m : ClaimManager} {count : Nat} {answer : Except DispatchError (List Entry)}
    {s' : Store} (hclaim : m.claim s count now = (answer, s')) : s.Tended now s' := by
  have hstore := ClaimManager.snd_claim m s count now
  rw [hclaim] at hstore
  exact .inr ⟨.claim count m.node m.ownerFilter, trivial, hstore⟩

theorem Tended.of_reap {m : ClaimManager} {answer : Except DispatchError (List Entry)} {s' : Store}
    (hreap : m.reap s now = (answer, s')) : s.Tended now s' := by
  have hstore := ClaimManager.snd_reap m s now
  rw [hreap] at hstore
  exact .inr ⟨.reap m.reapPolicy, trivial, hstore⟩

theorem Tended.of_release {id : NodeId} {answer : Except StoreError (List Entry)} {s' : Store}
    (hrelease : s.release id now = (answer, s')) : s.Tended now s' := by
  have hstore : (s.apply (.release id) now).2 = (s.release id now).2 := Outcome.snd_map _ _
  rw [hrelease] at hstore
  exact .inr ⟨.release id, trivial, hstore.symm⟩

end Store

variable {h h' : Hub} {n n' : Node}

namespace Node.Tends

/-- Nothing is done to the store, and the workers go on as they are. -/
theorem of_rest (hstore : h'.store = h.store) (hbreakdowns : h'.breakdowns = h.breakdowns)
    (hworkers : n'.workers = n.workers) : n.Tends h h' n' :=
  ⟨.inl hstore, fun hnone => hbreakdowns.trans hnone, fun _ ha => hworkers ▸ ha⟩

/-- The store is operated on, and the workers go on as they are. -/
theorem of_tended (hstore : h.store.Tended h.time h'.store) (hbreakdowns : h'.breakdowns = h.breakdowns)
    (hworkers : n'.workers = n.workers) : n.Tends h h' n' :=
  ⟨hstore, fun hnone => hbreakdowns.trans hnone, fun _ ha => hworkers ▸ ha⟩

end Node.Tends

namespace ClaimLoop

theorem tends_stop (h : Hub) (n : Node) : n.Tends h (stop h n).1 (stop h n).2 := by
  unfold stop
  cases n.subscription <;> exact .of_rest rfl rfl rfl

theorem tends_wait (h : Hub) (n : Node) : n.Tends h (wait h n).1 (wait h n).2 := .of_rest rfl rfl rfl

theorem tends_check (h : Hub) (n : Node) : n.Tends h (check h n).1 (check h n).2 := by
  unfold check
  split
  · exact tends_stop h n
  · split <;> exact .of_rest rfl rfl rfl

theorem tends_claim (h : Hub) (n : Node) : n.Tends h (claim h n).1 (claim h n).2 := by
  unfold claim
  split
  · rename_i k hbroken
    have hstop := tends_stop { h with breakdowns := { h.breakdowns with claim := k } } n
    refine ⟨hstop.store, fun hnone => ?_, hstop.workers⟩
    rw [hnone] at hbroken
    cases hbroken
  · simp only
    rcases hclaim : n.claims.claim h.store n.config.maxEntriesClaimed h.time with ⟨_ | es, s⟩
    · exact .of_tended (.of_claim hclaim) rfl rfl
    · exact .of_tended (.of_claim hclaim) rfl rfl

theorem tends_awake? {deadline : Nat} (hstep : awake? h n deadline = some (h', n')) :
    n.Tends h h' n' := by
  unfold awake? at hstep
  split at hstep
  · obtain ⟨rfl, rfl⟩ := Prod.mk.inj (Option.some.inj hstep)
    exact tends_stop h n
  · simp only at hstep
    split at hstep
    · cases hstep
      exact .of_rest rfl rfl rfl
    · split at hstep
      · cases hstep
        exact .of_rest rfl rfl rfl
      · cases hstep

theorem tends_drain (h : Hub) (n : Node) (own : Bool) (deadline : Nat) :
    n.Tends h (drain h n own deadline).1 (drain h n own deadline).2 := by
  unfold drain
  split <;> exact .of_rest rfl rfl rfl

theorem tends_step? (hstep : step? h n = some (h', n')) : n.Tends h h' n' := by
  unfold step? at hstep
  split at hstep
  · obtain ⟨rfl, rfl⟩ := Prod.mk.inj (Option.some.inj hstep)
    exact tends_check h n
  · obtain ⟨rfl, rfl⟩ := Prod.mk.inj (Option.some.inj hstep)
    exact tends_claim h n
  · split at hstep
    · cases hstep
    · cases hstep
      exact .of_rest rfl rfl rfl
  · split at hstep
    · cases hstep
      exact .of_rest rfl rfl rfl
    · obtain ⟨rfl, rfl⟩ := Prod.mk.inj (Option.some.inj hstep)
      exact tends_wait h n
  · cases hstep
    exact .of_rest rfl rfl rfl
  · exact tends_awake? hstep
  · obtain ⟨rfl, rfl⟩ := Prod.mk.inj (Option.some.inj hstep)
    exact tends_drain h n _ _
  · cases hstep
  · cases hstep

end ClaimLoop

namespace Reaper

theorem tends_reap (h : Hub) (n : Node) : n.Tends h (reap h n).1 (reap h n).2 := by
  unfold reap
  split
  · rename_i k hbroken
    refine ⟨.inl rfl, fun hnone => ?_, fun _ ha => ha⟩
    rw [hnone] at hbroken
    cases hbroken
  · rcases hreap : n.claims.reap h.store h.time with ⟨_ | es, s⟩
    · exact .of_tended (.of_reap hreap) rfl rfl
    · exact .of_tended (.of_reap hreap) rfl rfl

theorem tends_step? (hstep : step? h n = some (h', n')) : n.Tends h h' n' := by
  unfold step? at hstep
  split at hstep
  · split at hstep
    · cases hstep
      exact .of_rest rfl rfl rfl
    · split at hstep
      · cases hstep
        exact .of_rest rfl rfl rfl
      · cases hstep
  · obtain ⟨rfl, rfl⟩ := Prod.mk.inj (Option.some.inj hstep)
    exact tends_reap h n
  · cases hstep
  · cases hstep

end Reaper

namespace ShutdownStage

theorem tends_step? {stage : ShutdownStage} {next : ShutdownStage ⊕ CallResult}
    (hstep : stage.step? h n = some (next, h', n')) : n.Tends h h' n' := by
  cases stage with
  | joining deadline =>
    simp only [step?] at hstep
    split at hstep
    · cases hstep
      exact .of_rest rfl rfl rfl
    · split at hstep
      · cases hstep
        have hstop := ClaimLoop.tends_stop h n
        exact ⟨hstop.store, hstop.unbroken, hstop.workers⟩
      · cases hstep
  | finishing deadline timedOut =>
    simp only [step?] at hstep
    split at hstep
    · cases hstep
      exact .of_rest rfl rfl rfl
    · split at hstep
      · obtain ⟨stats, habort, -⟩ := n.abortWorkers_eq
        rw [habort] at hstep
        cases hstep
        refine ⟨.inl rfl, fun hnone => hnone, fun a ha => ?_⟩
        obtain ⟨w, -, hstopped⟩ := List.mem_map.mp ha
        cases hstopped
      · cases hstep
  | releasing again timedOut =>
    simp only [step?] at hstep
    rcases hrelease : h.store.release n.id h.time with ⟨_ | es, s⟩
    · rw [hrelease] at hstep
      simp only at hstep
      split at hstep
      · cases hstep
        exact .of_tended (.of_release hrelease) rfl rfl
      · cases hstep
        exact .of_tended (.of_release hrelease) rfl rfl
    · rw [hrelease] at hstep
      cases hstep
      exact .of_tended (.of_release hrelease) rfl rfl

end ShutdownStage

namespace Node

/-- A dispatcher that is started has idle workers. -/
theorem tends_start (h : Hub) (n : Node) : n.Tends h (n.start h).2.1 (n.start h).2.2 := by
  have hbegins := n.begins_start h
  generalize (n.start h).2.1 = h', (n.start h).2.2 = n' at hbegins
  have hidle : ∀ a count, Worker.busy a ∈ List.replicate count Worker.idle → .busy a ∈ n.workers := by
    intro a count ha
    cases List.eq_of_mem_replicate ha
  cases hbegins with
  | refused | declared => exact .of_rest rfl rfl rfl
  | started | subscribed => exact ⟨.inl rfl, fun hnone => hnone, fun a ha => hidle a _ ha⟩

theorem tended_post (h : Hub) (n : Node) (type : EventType) (event : Datum) (keys : SearchKeys) :
    h.store.Tended h.time (n.post h type event keys).2.store ∧
      (n.post h type event keys).2.breakdowns = h.breakdowns := by
  unfold post
  split
  · exact ⟨.inl rfl, rfl⟩
  · rename_i payload _
    have hstore : ∀ answer s, h.store.append ⟨payload, n.id, keys⟩ h.time = (answer, s) →
        h.store.Tended h.time s := by
      intro answer s happend
      have hsnd : (h.store.apply (.append ⟨payload, n.id, keys⟩) h.time).2 =
          (h.store.append ⟨payload, n.id, keys⟩ h.time).2 := Store.Outcome.snd_map _ _
      rw [happend] at hsnd
      exact .inr ⟨.append ⟨payload, n.id, keys⟩, trivial, hsnd.symm⟩
    simp only [Hub.append]
    rcases happend : h.store.append ⟨payload, n.id, keys⟩ h.time with ⟨_ | e, s⟩
    · exact ⟨hstore _ s happend, rfl⟩
    · exact ⟨hstore _ s happend, rfl⟩

end Node

end DurableQueue
