import DurableQueue.Proofs.Dispatch.Turn

/-!
Turns of the tasks of a dispatcher and of the calls of it.

Each lemma is about one step of one task: a worker, the claim loop, the reaper, a batch and a shutdown.
A worker and a batch have an attempt of their own; the others have none.
-/

namespace DurableQueue

variable {t : BusTask} {h h' : Hub} {n n' : Node} {draw : Draw}

namespace Worker

/-- A step of a worker is a turn of it, with the claims in the queue. -/
theorem turn_step? {i : Nat} (hs : h.store.IsWellFormed) (hn : n.IsNormal h)
    (ha : ∀ w ∈ n.workers[i]?, ∀ a ∈ w.attempt?, a.IsNormal)
    (hstep : step? draw h n i = some (h', n')) :
    ∃ w w', n.workers[i]? = some w ∧ n'.workers = n.workers.set i w' ∧ n'.IsNormal h' ∧
      Turn t ⟨n.waiting, w.attempt?, h.store⟩ (AttemptEvent.ofStep h t w.attempt? w'.attempt?)
        ⟨n'.waiting, w'.attempt?, h'.store⟩ := by
  unfold step? at hstep
  split at hstep
  · rename_i hidle
    have hstops : Turn t ⟨n.waiting, none, h.store⟩ [] ⟨(n.withWorker i stopped).waiting, none, h.store⟩ :=
      .quiet (List.Subperm.refl _) (.inl rfl) (.refl _)
    split at hstep
    · cases hstep
      exact ⟨_, stopped, hidle, rfl, hn.of_eq rfl rfl List.length_set rfl, hstops⟩
    · split at hstep
      · rename_i e rest hqueue
        have hrest : ({ n with queue := rest } : Node).IsNormal h := hn.of_eq rfl rfl rfl rfl
        obtain ⟨hopen, hentry, hnormal, hkeeps, hbegun⟩ := Attempt.begin_spec hrest e
        generalize Attempt.begin_ { n with queue := rest } e = begun at *
        obtain ⟨rfl, rfl⟩ := Prod.mk.inj (Option.some.inj hstep)
        refine ⟨_, busy begun.1, hidle, congrArg (List.set · i _) hkeeps.workers,
          hbegun.of_eq rfl rfl List.length_set rfl, ?_⟩
        have htaken : (begun.1.entry :: begun.2.waiting).Subperm n.waiting := by
          rw [hentry, hkeeps.waiting, Node.waiting, Node.waiting, hqueue]
          exact List.Subperm.refl _
        simp only [attempt?, hopen]
        exact .begun htaken hnormal
      · split at hstep
        · cases hstep
          exact ⟨_, stopped, hidle, rfl, hn.of_eq rfl rfl List.length_set rfl, hstops⟩
        · cases hstep
  · rename_i a hbusy
    obtain ⟨⟨p, h₁, n₁⟩, hattempt, heq⟩ := Option.map_eq_some_iff.mp hstep
    obtain ⟨hturn, hkeeps, hnormal⟩ := Attempt.turn_step? (t := t) hs hn (ha _ hbusy) hattempt n.waiting
    have hturn : Turn t ⟨n.waiting, a.open?, h.store⟩ (AttemptEvent.ofStep h t a.open? p.attempt?)
        ⟨n₁.waiting, p.attempt?, h₁.store⟩ := by
      rw [hkeeps.waiting]
      exact hturn
    cases p with
    | going a' =>
      cases heq
      exact ⟨_, busy a', hbusy, congrArg (List.set · i _) hkeeps.workers, hnormal.of_eq rfl rfl List.length_set rfl,
        hturn⟩
    | finished =>
      cases heq
      exact ⟨_, idle, hbusy, congrArg (List.set · i _) hkeeps.workers, hnormal.of_eq rfl rfl List.length_set rfl,
        hturn⟩
    | brokeDown =>
      cases heq
      exact ⟨_, stopped, hbusy, congrArg (List.set · i _) hkeeps.workers, hnormal.of_eq rfl rfl List.length_set rfl,
        hturn⟩
  · cases hstep
  · cases hstep

end Worker

namespace ClaimManager

variable {m : ClaimManager} {s s' : Store} {now : Timestamp} {count : Nat}

theorem handsOut_of_claim (hs : s.IsWellFormed) {es : List Entry}
    (h : m.claim s count now = (.ok es, s')) : s.HandsOut es s' := by
  have hok := report_eq_ok (congrArg Prod.fst h)
  have hanswer : (s.apply (.claim count m.node m.ownerFilter) now).1 = .ok (.entries es) := by
    simp only [Store.apply]
    rcases hclaim : s.claim count m.node m.ownerFilter now with ⟨_ | _, s₁⟩
    · rw [hclaim] at hok
      cases hok
    · rw [hclaim] at hok
      rw [Except.ok.inj hok]
      rfl
  have hstore : (s.apply (.claim count m.node m.ownerFilter) now).2 = s' := by
    rw [← snd_claim, h]
  exact hstore ▸ Store.handsOut_of_claim hs hanswer

theorem goesOn_of_claim (hs : s.IsWellFormed) {e : DispatchError}
    (h : m.claim s count now = (.error e, s')) : s.GoesOn s' := by
  have hstore : (s.apply (.claim count m.node m.ownerFilter) now).2 = s' := by
    rw [← snd_claim, h]
  have hnormal : (StoreOp.claim count m.node m.ownerFilter).IsNormal := trivial
  exact hstore ▸ Store.goesOn_apply hs hnormal now

end ClaimManager

namespace ClaimLoop

/-- A step of the claim loop: it has no attempt and leaves those of the workers alone. -/
structure Turns (t : BusTask) (h : Hub) (n : Node) (h' : Hub) (n' : Node) : Prop where
  workers : n'.workers = n.workers
  normal : n'.IsNormal h'
  turn : Turn t ⟨n.waiting, none, h.store⟩ [] ⟨n'.waiting, none, h'.store⟩

/-- A claim loop that is not left with claims to send. -/
theorem Turns.of_idle (hn : n.IsNormal h) (hwaiting : n'.waiting = n.queue)
    (hworkers : n'.workers = n.workers) (hregistry : n'.registry = n.registry)
    (hstarted : n'.isStarted = n.isStarted) (hgoes : h.store.GoesOn h'.store)
    (hbreak : h'.breakdowns.update = h.breakdowns.update) : Turns t h n h' n' := by
  refine ⟨hworkers, hn.of_eq hregistry hstarted (congrArg _ hworkers) hbreak, .quiet ?_ (.inl rfl) hgoes⟩
  rw [hwaiting]
  exact (List.sublist_append_left _ _).subperm

theorem breakdowns_stop (h : Hub) (n : Node) : (stop h n).1.breakdowns = h.breakdowns := by
  simp only [stop]
  split <;> rfl

theorem turns_stop (hn : n.IsNormal h) {h₁ : Hub} (hstore : h₁.store = h.store)
    (hbreak : h₁.breakdowns.update = h.breakdowns.update) :
    Turns t h n (stop h₁ n).1 (stop h₁ n).2 :=
  .of_idle hn (List.append_nil _) rfl rfl rfl (by rw [store_stop, hstore]; exact .refl _)
    (by rw [breakdowns_stop, hbreak])

theorem turns_wait (hn : n.IsNormal h) : Turns t h n (wait h n).1 (wait h n).2 :=
  .of_idle hn (List.append_nil _) rfl rfl rfl (.refl _) rfl

theorem turns_check (hn : n.IsNormal h) : Turns t h n (check h n).1 (check h n).2 := by
  unfold check
  split
  · exact turns_stop hn rfl rfl
  · split
    · exact .of_idle hn (List.append_nil _) rfl rfl rfl (.refl _) rfl
    · exact .of_idle hn (List.append_nil _) rfl rfl rfl (.refl _) rfl

theorem turns_claim (hs : h.store.IsWellFormed) (hn : n.IsNormal h) (hloop : n.claimLoop = some claiming) :
    Turns t h n (claim h n).1 (claim h n).2 := by
  unfold claim
  split
  · exact turns_stop hn rfl rfl
  · simp only
    rcases hclaim : n.claims.claim h.store n.config.maxEntriesClaimed h.time with ⟨_ | es, s⟩
    · exact .of_idle hn (List.append_nil _) rfl rfl rfl
        (ClaimManager.goesOn_of_claim hs hclaim) rfl
    · refine ⟨rfl, hn.of_eq rfl rfl rfl rfl, .claimed ?_ (ClaimManager.handsOut_of_claim hs hclaim)⟩
      simp only [Node.waiting, hloop, Node.withClaimLoop, Node.count, List.append_nil]
      exact List.perm_append_comm.subperm

theorem turns_awake? (hn : n.IsNormal h) {deadline : Nat} (hstep : awake? h n deadline = some (h', n')) :
    Turns t h n h' n' := by
  unfold awake? at hstep
  split at hstep
  · obtain ⟨rfl, rfl⟩ := Prod.mk.inj (Option.some.inj hstep)
    exact turns_stop hn rfl rfl
  · simp only at hstep
    split at hstep
    · cases hstep
      exact .of_idle hn (List.append_nil _) rfl rfl rfl (.refl _) rfl
    · split at hstep
      · cases hstep
        exact .of_idle hn (List.append_nil _) rfl rfl rfl (.refl _) rfl
      · cases hstep

theorem turns_drain (hn : n.IsNormal h) (own : Bool) (deadline : Nat) :
    Turns t h n (drain h n own deadline).1 (drain h n own deadline).2 := by
  unfold drain
  split
  · exact .of_idle hn (List.append_nil _) rfl rfl rfl (.refl _) rfl
  · refine .of_idle hn ?_ rfl rfl rfl (.refl _) rfl
    simp only [Node.waiting, Node.withClaimLoop]
    generalize (own || List.any _ _) = heard
    cases heard <;> exact List.append_nil _

/-- A step of the claim loop is a turn without events. -/
theorem turns_step? (hs : h.store.IsWellFormed) (hn : n.IsNormal h) (hstep : step? h n = some (h', n')) :
    Turns t h n h' n' := by
  unfold step? at hstep
  split at hstep
  · obtain ⟨rfl, rfl⟩ := Prod.mk.inj (Option.some.inj hstep)
    exact turns_check hn
  · rename_i hloop
    obtain ⟨rfl, rfl⟩ := Prod.mk.inj (Option.some.inj hstep)
    exact turns_claim hs hn hloop
  · rename_i e rest full hloop
    split at hstep
    · cases hstep
    · cases hstep
      refine ⟨rfl, hn.of_eq rfl rfl rfl rfl, .quiet ?_ (.inl rfl) (.refl _)⟩
      simp only [Node.waiting, hloop, Node.withClaimLoop, List.append_assoc, List.singleton_append]
      exact List.Subperm.refl _
  · split at hstep
    · cases hstep
      exact .of_idle hn (List.append_nil _) rfl rfl rfl (.refl _) rfl
    · obtain ⟨rfl, rfl⟩ := Prod.mk.inj (Option.some.inj hstep)
      exact turns_wait hn
  · cases hstep
    exact .of_idle hn (List.append_nil _) rfl rfl rfl (.refl _) rfl
  · exact turns_awake? hn hstep
  · obtain ⟨rfl, rfl⟩ := Prod.mk.inj (Option.some.inj hstep)
    exact turns_drain hn _ _
  · cases hstep
  · cases hstep

end ClaimLoop

/-- A step of the reaper that takes nothing back. -/
theorem Reaper.keepsTasks_step? (hreaper : n.reaper ≠ some .reaping)
    (hstep : Reaper.step? h n = some (h', n')) :
    h' = h ∧ n.KeepsTasks n' ∧ n'.registry = n.registry ∧ n'.isStarted = n.isStarted := by
  unfold Reaper.step? at hstep
  split at hstep
  · split at hstep
    · cases hstep
      exact ⟨rfl, ⟨rfl, rfl, rfl⟩, rfl, rfl⟩
    · split at hstep
      · cases hstep
        exact ⟨rfl, ⟨rfl, rfl, rfl⟩, rfl, rfl⟩
      · cases hstep
  · rename_i hreaping
    exact absurd hreaping hreaper
  · cases hstep
  · cases hstep

namespace ProcessStage

/-- A step of a batch is a turn of the call, with the claims that the call still has. -/
theorem turn_step? {stage : ProcessStage} {next : ProcessStage ⊕ CallResult}
    (hs : h.store.IsWellFormed) (hn : n.IsNormal h) (ha : ∀ a ∈ stage.attempt?, a.IsNormal)
    (hstep : stage.step? draw h n = some (next, h', n')) :
    n.KeepsTasks n' ∧ n'.IsNormal h' ∧
      Turn t ⟨stage.waiting, stage.attempt?, h.store⟩
        (AttemptEvent.ofStep h t stage.attempt? (next.getLeft?.bind attempt?))
        ⟨(next.getLeft?.map waiting).getD [], next.getLeft?.bind attempt?, h'.store⟩ := by
  cases stage with
  | claiming =>
    simp only [step?] at hstep
    split at hstep
    · cases hstep
      exact ⟨⟨rfl, rfl, rfl⟩, hn.of_eq rfl rfl rfl rfl, .quiet (List.Subperm.refl _) (.inl rfl) (.refl _)⟩
    · rcases hclaim : n.claims.claim h.store n.config.maxEntriesClaimed h.time with ⟨_ | es, s⟩
      · rw [hclaim] at hstep
        cases hstep
        exact ⟨⟨rfl, rfl, rfl⟩, hn.of_eq rfl rfl rfl rfl,
          .quiet (List.Subperm.refl _) (.inl rfl) (ClaimManager.goesOn_of_claim hs hclaim)⟩
      · rw [hclaim] at hstep
        cases hstep
        refine ⟨⟨rfl, rfl, rfl⟩, hn.of_eq rfl rfl rfl rfl, .claimed ?_ (ClaimManager.handsOut_of_claim hs hclaim)⟩
        exact (List.sublist_append_left es []).subperm
  | between count rest =>
    cases rest with
    | nil =>
      cases hstep
      exact ⟨⟨rfl, rfl, rfl⟩, hn, .quiet (List.Subperm.refl _) (.inl rfl) (.refl _)⟩
    | cons e rest =>
      obtain ⟨hopen, hentry, hnormal, hkeeps, hbegun⟩ := Attempt.begin_spec hn e
      simp only [step?] at hstep
      generalize Attempt.begin_ n e = begun at *
      obtain ⟨rfl, heq⟩ := Prod.mk.inj (Option.some.inj hstep)
      obtain ⟨rfl, rfl⟩ := Prod.mk.inj heq
      have htaken : (begun.1.entry :: rest).Subperm (e :: rest) := by rw [hentry]
      refine ⟨hkeeps, hbegun, ?_⟩
      simp only [attempt?, waiting, Sum.getLeft?_inl, Option.bind_some, Option.map_some,
        Option.getD_some, hopen]
      exact .begun htaken hnormal
  | attempting count a rest =>
    obtain ⟨⟨p, h₁, n₁⟩, hattempt, heq⟩ := Option.map_eq_some_iff.mp hstep
    obtain ⟨hturn, hkeeps, hnormal⟩ := Attempt.turn_step? (t := t) hs hn ha hattempt rest
    cases p with
    | going a' =>
      cases heq
      exact ⟨hkeeps, hnormal, hturn⟩
    | finished =>
      cases heq
      exact ⟨hkeeps, hnormal, hturn⟩
    | brokeDown =>
      cases heq
      have hless : (rest ++ []).Subperm rest := by rw [List.append_nil]
      exact ⟨hkeeps, hnormal, hturn.frame hless List.nil_subperm⟩

end ProcessStage

/-- A dispatcher after it gave up claims that waited and, if workers are made to stop, attempts. -/
structure Node.GivesUp (aborts : Prop) (n n' : Node) : Prop where
  waiting : n'.waiting.Subperm n.waiting
  attempts : ∀ i, n'.attempt? i = n.attempt? i ∨ aborts ∧ n'.attempt? i = none
  normal : ∀ {h : Hub}, n.IsNormal h → n'.IsNormal h

namespace Node

variable {aborts : Prop}

theorem GivesUp.refl (n : Node) : n.GivesUp aborts n := ⟨List.Subperm.refl _, fun _ => .inl rfl, fun hn => hn⟩

theorem GivesUp.trans {n₁ n₂ n₃ : Node} (h : n₁.GivesUp aborts n₂) (h' : n₂.GivesUp aborts n₃) :
    n₁.GivesUp aborts n₃ where
  waiting := h'.waiting.trans h.waiting
  attempts i := by
    rcases h'.attempts i with heq | hnone
    · rw [heq]
      exact h.attempts i
    · exact .inr hnone
  normal hn := h'.normal (h.normal hn)

theorem KeepsTasks.givesUp (h : n.KeepsTasks n') (hregistry : n'.registry = n.registry)
    (hstarted : n'.isStarted = n.isStarted) : n.GivesUp aborts n' where
  waiting := by
    rw [h.waiting]
  attempts i := by
    rw [attempt?, attempt?, h.workers]
    exact .inl rfl
  normal hn := hn.of_eq hregistry hstarted (congrArg _ h.workers) rfl

theorem attempt?_of_set {i : Nat} {w : Worker} (hworkers : n'.workers = n.workers.set i w) {j : Nat}
    (hij : j ≠ i) : n'.attempt? j = n.attempt? j := by
  rw [attempt?, attempt?, hworkers, List.getElem?_set_ne (Ne.symm hij)]

theorem givesUp_abort (haborts : aborts) (n : Node) (i : Nat) : n.GivesUp aborts (Worker.abort n i) := by
  have hstop : n.GivesUp aborts (n.withWorker i .stopped) := by
    refine ⟨List.Subperm.refl _, fun j => ?_, fun hn => hn.of_eq rfl rfl List.length_set rfl⟩
    by_cases hij : j = i
    · subst hij
      refine .inr ⟨haborts, ?_⟩
      rw [attempt?, withWorker, List.getElem?_set_self']
      cases n.workers[j]? <;> rfl
    · exact .inl (attempt?_of_set rfl hij)
  unfold Worker.abort
  split
  · exact hstop.trans (KeepsTasks.givesUp ⟨rfl, rfl, rfl⟩ rfl rfl)
  · exact hstop

theorem givesUp_abortWorkers (haborts : aborts) (n : Node) : n.GivesUp aborts n.abortWorkers := by
  unfold abortWorkers
  induction List.range n.workers.length generalizing n with
  | nil => exact .refl n
  | cons i rest ih => exact (givesUp_abort haborts n i).trans (ih (Worker.abort n i))

theorem givesUp_abortBackground (n : Node) (h : Hub) : n.GivesUp aborts (n.abortBackground h).2 where
  waiting := by
    refine List.Sublist.subperm ?_
    rw [Node.waiting, Node.waiting]
    exact (List.append_nil _).symm ▸ List.sublist_append_left _ _
  attempts _ := .inl rfl
  normal hn := hn.of_eq rfl rfl rfl rfl

end Node

/-- A step of a shutdown that hands nothing back. -/
theorem ShutdownStage.givesUp_step? {stage : ShutdownStage} {next : ShutdownStage ⊕ CallResult}
    {aborts : Prop} (hstage : ∀ again timedOut, stage ≠ .releasing again timedOut)
    (haborts : ∀ deadline timedOut, stage = .finishing deadline timedOut → n.areWorkersOver = false →
      deadline ≤ h.now → aborts)
    (hstep : stage.step? h n = some (next, h', n')) :
    n.GivesUp aborts n' ∧ h'.store = h.store ∧ h'.breakdowns = h.breakdowns := by
  cases stage with
  | joining deadline =>
    simp only [step?] at hstep
    split at hstep
    · cases hstep
      exact ⟨.refl n, rfl, rfl⟩
    · split at hstep
      · cases hstep
        exact ⟨Node.givesUp_abortBackground n h, ClaimLoop.store_stop h n, ClaimLoop.breakdowns_stop h n⟩
      · cases hstep
  | finishing deadline timedOut =>
    simp only [step?] at hstep
    split at hstep
    · cases hstep
      exact ⟨Node.KeepsTasks.givesUp ⟨rfl, rfl, rfl⟩ rfl rfl, rfl, rfl⟩
    · rename_i hworkers
      split at hstep
      · rename_i hdeadline
        cases hstep
        have hpassed := haborts deadline timedOut rfl (Bool.not_eq_true _ ▸ hworkers) hdeadline
        exact ⟨(Node.givesUp_abortWorkers hpassed n).trans (Node.KeepsTasks.givesUp ⟨rfl, rfl, rfl⟩ rfl rfl),
          rfl, rfl⟩
      · cases hstep
  | releasing again timedOut => exact absurd rfl (hstage again timedOut)

end DurableQueue
