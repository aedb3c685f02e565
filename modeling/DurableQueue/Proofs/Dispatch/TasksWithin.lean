import DurableQueue.Proofs.Dispatch.Within

/-!
The tasks of a dispatcher keep to the terms.

Each lemma is about one step of one task: of the claim loop, the reaper and the workers, and of what
starts and stops them.
-/

namespace DurableQueue

variable {t : RetryTerms}

namespace ClaimLoop

variable {n n' : Node} {h h' : Hub}

theorem isWithin_stop (hn : n.IsWithin t) (h : Hub) : (stop h n).2.IsWithin t :=
  ⟨hn.config, hn.registry, hn.queue, hn.workers, by simp [stop, ClaimLoop.IsWithin]⟩

theorem store_stop (h : Hub) (n : Node) : (stop h n).1.store = h.store := by
  simp only [stop]
  split <;> rfl

theorem isWithin_wait (hn : n.IsWithin t) (h : Hub) : (wait h n).2.IsWithin t :=
  hn.withClaimLoop (.waiting _) trivial

theorem keeps_check (hn : n.IsWithin t) (h : Hub) : Node.Keeps t h (check h n).1 (check h n).2 := by
  unfold check
  split
  · exact .of_store_eq (store_stop h n) (isWithin_stop hn h)
  · split
    · exact .of_store_eq rfl (isWithin_wait (hn.count _) h)
    · exact .of_store_eq rfl (hn.withClaimLoop .claiming trivial)

theorem keeps_claim (hn : n.IsWithin t) (hs : h.store.IsSound t) (ht : 0 < t.limit) :
    Node.Keeps t h (claim h n).1 (claim h n).2 := by
  unfold claim
  split
  · exact .of_store_eq (store_stop _ n) (isWithin_stop hn _)
  · simp only
    rcases hclaim : n.claims.claim h.store n.config.maxEntriesClaimed h.time with ⟨_ | es, s⟩
    · exact Node.keeps_claim (congrArg Prod.snd hclaim).symm (isWithin_wait (hn.count _) _)
    · have hspare := ClaimManager.spare_of_claim hs ht (congrArg Prod.fst hclaim)
      exact Node.keeps_claim (congrArg Prod.snd hclaim).symm
        ((hn.count _).withClaimLoop (.sending es _) hspare)

theorem keeps_awake? (hn : n.IsWithin t) {deadline : Nat}
    (hstep : awake? h n deadline = some (h', n')) : Node.Keeps t h h' n' := by
  unfold awake? at hstep
  split at hstep
  · obtain ⟨rfl, rfl⟩ := Prod.mk.inj (Option.some.inj hstep)
    exact .of_store_eq (store_stop h n) (isWithin_stop hn h)
  · simp only at hstep
    split at hstep
    · cases hstep
      exact .of_store_eq rfl (hn.withClaimLoop (.draining _ _) trivial)
    · split at hstep
      · cases hstep
        exact .of_store_eq rfl (hn.withClaimLoop .checking trivial)
      · cases hstep

theorem keeps_drain (hn : n.IsWithin t) (h : Hub) (own : Bool) (deadline : Nat) :
    Node.Keeps t h (drain h n own deadline).1 (drain h n own deadline).2 := by
  have hwait : (n.withClaimLoop (.waiting deadline)).IsWithin t :=
    hn.withClaimLoop (.waiting deadline) trivial
  have hcheck : (n.withClaimLoop .checking).IsWithin t := hn.withClaimLoop .checking trivial
  unfold drain
  split
  · exact .of_store_eq rfl hwait
  · refine .of_store_eq rfl ?_
    simp only
    split
    · exact hcheck
    · exact hwait

/-- A step of the claim loop keeps to the terms. -/
theorem keeps_step? (hn : n.IsWithin t) (hs : h.store.IsSound t) (ht : 0 < t.limit)
    (hstep : step? h n = some (h', n')) : Node.Keeps t h h' n' := by
  unfold step? at hstep
  split at hstep
  · obtain ⟨rfl, rfl⟩ := Prod.mk.inj (Option.some.inj hstep)
    exact keeps_check hn h
  · obtain ⟨rfl, rfl⟩ := Prod.mk.inj (Option.some.inj hstep)
    exact keeps_claim hn hs ht
  · rename_i e rest full hloop
    have hsending := hn.claimLoop _ hloop
    split at hstep
    · cases hstep
    · cases hstep
      obtain ⟨he, hrest⟩ := List.forall_mem_cons.mp hsending
      have hqueue : ∀ f ∈ n.queue ++ [e], f.errorCount < t.limit :=
        List.forall_mem_append.mpr ⟨hn.queue, List.forall_mem_singleton.mpr he⟩
      have hsent : { n with queue := n.queue ++ [e] }.IsWithin t :=
        ⟨hn.config, hn.registry, hqueue, hn.workers, hn.claimLoop⟩
      exact .of_store_eq rfl (hsent.withClaimLoop (.sending rest full) hrest)
  · split at hstep
    · cases hstep
      exact .of_store_eq rfl (hn.withClaimLoop .yielding trivial)
    · obtain ⟨rfl, rfl⟩ := Prod.mk.inj (Option.some.inj hstep)
      exact .of_store_eq rfl (isWithin_wait hn h)
  · cases hstep
    exact .of_store_eq rfl (hn.withClaimLoop .checking trivial)
  · exact keeps_awake? hn hstep
  · obtain ⟨rfl, rfl⟩ := Prod.mk.inj (Option.some.inj hstep)
    exact keeps_drain hn h _ _
  · cases hstep
  · cases hstep

end ClaimLoop

namespace Node.IsWithin

variable {n : Node}

theorem withReaper (hn : n.IsWithin t) (r : Reaper) : { n with reaper := some r }.IsWithin t :=
  ⟨hn.config, hn.registry, hn.queue, hn.workers, hn.claimLoop⟩

theorem cancel (hn : n.IsWithin t) : n.cancel.IsWithin t :=
  ⟨hn.config, hn.registry, hn.queue, hn.workers, hn.claimLoop⟩

theorem withClock (hn : n.IsWithin t) (clock : NodeClock) : { n with clock }.IsWithin t :=
  ⟨hn.config, hn.registry, hn.queue, hn.workers, hn.claimLoop⟩

end Node.IsWithin

namespace Reaper

variable {n n' : Node} {h h' : Hub}

theorem isWithin_sleep (hn : n.IsWithin t) (h : Hub) : (sleep h n).IsWithin t := hn.withReaper _

theorem keeps_reap (hn : n.IsWithin t) (h : Hub) : Node.Keeps t h (reap h n).1 (reap h n).2 := by
  unfold reap
  split
  · exact .of_store_eq rfl (hn.withReaper _)
  · rcases hreap : n.claims.reap h.store h.time with ⟨_ | es, s⟩
    · exact Node.keeps_reap hn.config.governs (congrArg Prod.snd hreap).symm
        (isWithin_sleep (hn.count _) _)
    · exact Node.keeps_reap hn.config.governs (congrArg Prod.snd hreap).symm
        (isWithin_sleep (hn.count _) _)

/-- A step of the reaper keeps to the terms. -/
theorem keeps_step? (hn : n.IsWithin t) (hstep : step? h n = some (h', n')) :
    Node.Keeps t h h' n' := by
  unfold step? at hstep
  split at hstep
  · split at hstep
    · cases hstep
      exact .of_store_eq rfl (hn.withReaper _)
    · split at hstep
      · cases hstep
        exact .of_store_eq rfl (hn.withReaper _)
      · cases hstep
  · obtain ⟨rfl, rfl⟩ := Prod.mk.inj (Option.some.inj hstep)
    exact keeps_reap hn h
  · cases hstep
  · cases hstep

end Reaper

namespace Worker

variable {n n' : Node} {h h' : Hub}

/-- A step of a worker keeps to the terms. -/
theorem keeps_step? {draw : Draw} {i : Nat} (hn : n.IsWithin t)
    (hstep : step? draw h n i = some (h', n')) : Node.Keeps t h h' n' := by
  unfold step? at hstep
  split at hstep
  · split at hstep
    · cases hstep
      exact .of_store_eq rfl (hn.withWorker i .stopped trivial)
    · split at hstep
      · rename_i e rest hqueue
        cases hstep
        obtain ⟨he, hrest⟩ := List.forall_mem_cons.mp (hqueue ▸ hn.queue)
        have htaken : { n with queue := rest }.IsWithin t :=
          ⟨hn.config, hn.registry, hrest, hn.workers, hn.claimLoop⟩
        obtain ⟨ha, hbegun⟩ := Attempt.isWithin_begin_ htaken he
        exact .of_store_eq rfl (hbegun.withWorker i (.busy _) ha)
      · split at hstep
        · cases hstep
          exact .of_store_eq rfl (hn.withWorker i .stopped trivial)
        · cases hstep
  · rename_i a hworker
    have ha : a.IsWithin t := hn.workers _ (List.mem_of_getElem? hworker)
    obtain ⟨⟨p, h₁, n₁⟩, hattempt, heq⟩ := Option.map_eq_some_iff.mp hstep
    obtain ⟨hkeeps, hp⟩ := Attempt.keeps_step? hn ha hattempt
    cases p with
    | going a' =>
      cases heq
      exact ⟨hkeeps.store, hkeeps.node.withWorker i (.busy a') hp⟩
    | finished =>
      cases heq
      exact ⟨hkeeps.store, hkeeps.node.withWorker i .idle trivial⟩
    | brokeDown =>
      cases heq
      exact ⟨hkeeps.store, hkeeps.node.withWorker i .stopped trivial⟩
  · cases hstep
  · cases hstep

theorem isWithin_abort (hn : n.IsWithin t) (i : Nat) : (abort n i).IsWithin t := by
  unfold abort
  split
  · exact (hn.withWorker i .stopped trivial).leave
  · exact hn.withWorker i .stopped trivial

end Worker

namespace Node

variable {n : Node} {h : Hub}

theorem isWithin_abortWorkers (hn : n.IsWithin t) : n.abortWorkers.IsWithin t := by
  unfold abortWorkers
  induction List.range n.workers.length generalizing n with
  | nil => exact hn
  | cons i rest ih => exact ih (Worker.isWithin_abort hn i)

theorem keeps_abortBackground (hn : n.IsWithin t) (h : Hub) :
    Keeps t h (n.abortBackground h).1 (n.abortBackground h).2 :=
  .of_store_eq (ClaimLoop.store_stop h n) ((ClaimLoop.isWithin_stop hn h).withReaper _)

theorem keeps_start (hn : n.IsWithin t) (h : Hub) : Keeps t h (n.start h).2.1 (n.start h).2.2 := by
  unfold start
  split
  · exact .of_store_eq rfl hn
  · split
    · exact .of_store_eq rfl ⟨hn.config, hn.registry, hn.queue, hn.workers, hn.claimLoop⟩
    · split
      · exact .of_store_eq rfl hn
      · split
        · exact .of_store_eq rfl hn
        · refine .of_store_eq rfl ⟨hn.config, hn.registry, hn.queue, ?_, ?_⟩
          · intro w hw
            rw [List.eq_of_mem_replicate hw]
            trivial
          · intro c hc
            cases hc
            trivial

theorem keeps_post (hn : n.IsWithin t) (h : Hub) (type : EventType) (event : Datum)
    (keys : SearchKeys) : Keeps t h (n.post h type event keys).2 n := by
  unfold post
  split
  · exact .of_store_eq rfl hn
  · rename_i payload _
    have hstore := h.store_operate (.append ⟨payload, n.id, keys⟩)
    simp only [Hub.operate] at hstore
    rcases happend : h.append ⟨payload, n.id, keys⟩ with ⟨_ | e, h'⟩
    · rw [happend] at hstore
      exact .of_apply (.append ⟨payload, n.id, keys⟩) h.time trivial hstore hn
    · rw [happend] at hstore
      exact .of_apply (.append ⟨payload, n.id, keys⟩) h.time trivial hstore hn

end Node

end DurableQueue
