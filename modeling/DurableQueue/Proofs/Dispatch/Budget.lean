import DurableQueue.Proofs.Dispatch.TasksWithin

/-!
The retry budget of a store that several dispatchers share.

`Bus.keeps_step?` says that every step of every task keeps to the terms, and `Scene.keeps_run` that
whatever happens does, as long as the dispatchers have one limit and only dispatchers resolve claims.
`retries_bounded` draws the conclusion: no entry is tried more often than the limit allows.
-/

namespace DurableQueue

variable {t : RetryTerms}

/-- The stage that follows, unless the call is over. -/
def ProcessStage.IsWithinNext (t : RetryTerms) : ProcessStage ⊕ CallResult → Prop
  | .inl stage => stage.IsWithin t
  | .inr _ => True

namespace ProcessStage

variable {n n' : Node} {h h' : Hub}

/-- A step of processing a batch keeps to the terms. -/
theorem keeps_step? {draw : Draw} {stage : ProcessStage} {next : ProcessStage ⊕ CallResult}
    (hn : n.IsWithin t) (hs : h.store.IsSound t) (ht : 0 < t.limit) (hstage : stage.IsWithin t)
    (hstep : stage.step? draw h n = some (next, h', n')) :
    Node.Keeps t h h' n' ∧ IsWithinNext t next := by
  cases stage with
  | claiming =>
    simp only [step?] at hstep
    split at hstep
    · cases hstep
      exact ⟨.of_store_eq rfl hn, trivial⟩
    · rcases hclaim : n.claims.claim h.store n.config.maxEntriesClaimed h.time with ⟨_ | es, s⟩
      · rw [hclaim] at hstep
        cases hstep
        exact ⟨Node.keeps_claim (congrArg Prod.snd hclaim).symm hn, trivial⟩
      · rw [hclaim] at hstep
        cases hstep
        exact ⟨Node.keeps_claim (congrArg Prod.snd hclaim).symm (hn.count _),
          ClaimManager.spare_of_claim hs ht (congrArg Prod.fst hclaim)⟩
  | between count rest =>
    cases rest with
    | nil =>
      cases hstep
      exact ⟨.of_store_eq rfl hn, trivial⟩
    | cons e rest =>
      cases hstep
      obtain ⟨ha, hbegun⟩ := Attempt.isWithin_begin_ hn (hstage e (List.mem_cons_self ..))
      exact ⟨.of_store_eq rfl hbegun, ha, fun f hf => hstage f (List.mem_cons_of_mem _ hf)⟩
  | attempting count a rest =>
    obtain ⟨ha, hrest⟩ := hstage
    obtain ⟨⟨p, h₁, n₁⟩, hattempt, heq⟩ := Option.map_eq_some_iff.mp hstep
    obtain ⟨hkeeps, hp⟩ := Attempt.keeps_step? hn ha hattempt
    cases p with
    | going a' =>
      cases heq
      exact ⟨hkeeps, hp, hrest⟩
    | finished =>
      cases heq
      exact ⟨hkeeps, hrest⟩
    | brokeDown =>
      cases heq
      exact ⟨hkeeps, trivial⟩

end ProcessStage

namespace ShutdownStage

variable {n n' : Node} {h h' : Hub}

/-- A step of a shutdown keeps to the terms. -/
theorem keeps_step? {stage : ShutdownStage} {next : ShutdownStage ⊕ CallResult}
    (hn : n.IsWithin t) (hstep : stage.step? h n = some (next, h', n')) :
    Node.Keeps t h h' n' := by
  cases stage with
  | joining deadline =>
    simp only [step?] at hstep
    split at hstep
    · cases hstep
      exact .of_store_eq rfl hn
    · split at hstep
      · cases hstep
        exact Node.keeps_abortBackground hn h
      · cases hstep
  | finishing deadline timedOut =>
    simp only [step?] at hstep
    split at hstep
    · cases hstep
      exact .of_store_eq rfl (hn.count _)
    · split at hstep
      · cases hstep
        exact .of_store_eq rfl ((Node.isWithin_abortWorkers hn).count _)
      · cases hstep
  | releasing again timedOut =>
    simp only [step?] at hstep
    rcases hcall : h.store.release n.id h.time with ⟨_ | es, s⟩
    · rw [hcall] at hstep
      simp only at hstep
      split at hstep
      · cases hstep
        exact Node.keeps_release (congrArg Prod.snd hcall).symm hn
      · cases hstep
        exact Node.keeps_release (congrArg Prod.snd hcall).symm hn
    · rw [hcall] at hstep
      cases hstep
      exact Node.keeps_release (congrArg Prod.snd hcall).symm hn

end ShutdownStage

namespace Bus

variable {b b' : Bus}

theorem Keeps.refl (hb : b.IsWithin t) : Keeps t b b := ⟨.refl _ _, hb⟩

/-- A step of one dispatcher is a step of the bus. -/
theorem keeps_of_node (hb : b.IsWithin t) (ht : 0 < t.limit) {i : Nat} {h : Hub} {n : Node}
    (hk : Node.Keeps t b.hub h n) {calls : List Call} (hcalls : ∀ c ∈ calls, c.IsWithin t) :
    Keeps t b { b with hub := h, nodes := b.nodes.set i n, calls } where
  store := hk.store
  bus := {
    store := hk.store.isSound ht hb.store
    nodes := forall_mem_set hb.nodes hk.node i
    calls := hcalls }

theorem keeps_onNode? (hb : b.IsWithin t) (ht : 0 < t.limit) {i : Nat}
    {f : Hub → Node → Option (Hub × Node)}
    (hf : ∀ n h' n', n.IsWithin t → f b.hub n = some (h', n') → Node.Keeps t b.hub h' n')
    (hstep : b.onNode? i f = some b') : Keeps t b b' := by
  unfold onNode? at hstep
  obtain ⟨n, hn, hstep⟩ := Option.bind_eq_some_iff.mp hstep
  obtain ⟨⟨h', n'⟩, hrun, heq⟩ := Option.bind_eq_some_iff.mp hstep
  cases heq
  exact keeps_of_node hb ht (hf n h' n' (hb.nodes n (List.mem_of_getElem? hn)) hrun) hb.calls

/-- A dispatcher that does something at once, if it is there. -/
theorem keeps_getD_onNode? (hb : b.IsWithin t) (ht : 0 < t.limit) {i : Nat}
    {f : Hub → Node → Hub × Node}
    (hf : ∀ n : Node, n.IsWithin t → Node.Keeps t b.hub (f b.hub n).1 (f b.hub n).2) :
    Keeps t b ((b.onNode? i fun h n => some (f h n)).getD b) := by
  cases hstep : b.onNode? i fun h n => some (f h n) with
  | none => exact .refl hb
  | some b' =>
    refine keeps_onNode? hb ht (fun n h' n' hn hrun => ?_) hstep
    obtain ⟨rfl, rfl⟩ := Prod.mk.inj (Option.some.inj hrun)
    exact hf n hn

theorem keeps_stepCall? (hb : b.IsWithin t) (ht : 0 < t.limit) {draw : Draw} {i : Nat}
    (hstep : b.stepCall? draw i = some b') : Keeps t b b' := by
  unfold stepCall? at hstep
  obtain ⟨c, hc, hstep⟩ := Option.bind_eq_some_iff.mp hstep
  have hwithin := hb.calls c (List.mem_of_getElem? hc)
  cases c with
  | process node stage =>
    obtain ⟨n, hn, hstep⟩ := Option.bind_eq_some_iff.mp hstep
    obtain ⟨⟨next, h', n'⟩, hstage, heq⟩ := Option.bind_eq_some_iff.mp hstep
    obtain ⟨hk, hnext⟩ := ProcessStage.keeps_step? (hb.nodes n (List.mem_of_getElem? hn)) hb.store ht
      hwithin hstage
    cases next with
    | inl stage' =>
      cases heq
      exact keeps_of_node hb ht hk (forall_mem_set (x := .process node stage') hb.calls hnext i)
    | inr r =>
      cases heq
      exact keeps_of_node hb ht hk (forall_mem_set (x := .over r) hb.calls trivial i)
  | shutdown node stage =>
    obtain ⟨n, hn, hstep⟩ := Option.bind_eq_some_iff.mp hstep
    obtain ⟨⟨next, h', n'⟩, hstage, heq⟩ := Option.bind_eq_some_iff.mp hstep
    have hk := ShutdownStage.keeps_step? (hb.nodes n (List.mem_of_getElem? hn)) hstage
    cases next with
    | inl stage' =>
      cases heq
      exact keeps_of_node hb ht hk (forall_mem_set (x := .shutdown node stage') hb.calls trivial i)
    | inr r =>
      cases heq
      exact keeps_of_node hb ht hk (forall_mem_set (x := .over r) hb.calls trivial i)
  | _ => cases hstep

/-- A step of a task keeps to the terms. -/
theorem keeps_step? (hb : b.IsWithin t) (ht : 0 < t.limit) {draw : Nat → Draw} {task : BusTask}
    (hstep : b.step? draw task = some b') : Keeps t b b' := by
  cases task with
  | call i =>
    simp only [step?] at hstep
    split at hstep
    · exact keeps_stepCall? hb ht hstep
    · exact keeps_stepCall? hb ht hstep
  | worker node i =>
    exact keeps_onNode? hb ht (f := fun h n => Worker.step? (draw node) h n i)
      (fun _ _ _ hn h => Worker.keeps_step? hn h) hstep
  | claimLoop node =>
    exact keeps_onNode? hb ht (fun _ _ _ hn h => ClaimLoop.keeps_step? hn hb.store ht h) hstep
  | reaper node => exact keeps_onNode? hb ht (fun _ _ _ hn h => Reaper.keeps_step? hn h) hstep

theorem nodes_modify (hb : b.IsWithin t) {f : Node → Node}
    (hf : ∀ n : Node, n.IsWithin t → (f n).IsWithin t) (i : Nat) :
    ∀ n ∈ b.nodes.modify i f, n.IsWithin t := by
  intro n hn
  obtain ⟨j, hj⟩ := List.mem_iff_getElem?.mp hn
  rw [List.getElem?_modify] at hj
  obtain ⟨m, hm, rfl⟩ := Option.map_eq_some_iff.mp hj
  have hwithin := hb.nodes m (List.mem_of_getElem? hm)
  split
  · exact hf m hwithin
  · exact hwithin

theorem keeps_drop (hb : b.IsWithin t) (id : NodeId) : Keeps t b (b.drop id) := by
  unfold drop
  split
  · exact ⟨.refl _ _, hb.store, nodes_modify hb (fun _ hn => hn.cancel) _, hb.calls⟩
  · exact .refl hb

theorem keeps_add (hb : b.IsWithin t) {n : Node} (hn : n.IsWithin t) : Keeps t b (b.add n) := by
  have hdrop := keeps_drop hb n.id
  exact ⟨hdrop.store, hdrop.bus.store,
    List.forall_mem_append.mpr ⟨hdrop.bus.nodes, List.forall_mem_singleton.mpr hn⟩, hdrop.bus.calls⟩

theorem keeps_give (hb : b.IsWithin t) (i : Nat) (stage : ProcessStage)
    (hstage : stage.IsWithin t) : Keeps t b (b.give i stage) :=
  ⟨.refl _ _, hb.store, hb.nodes,
    List.forall_mem_append.mpr ⟨hb.calls, List.forall_mem_singleton.mpr hstage⟩⟩

theorem keeps_reapOnce (hb : b.IsWithin t) (ht : 0 < t.limit) (i : Nat) :
    Keeps t b (b.reapOnce i).2 := by
  unfold reapOnce
  split
  · exact .refl hb
  · exact ⟨.refl _ _, hb.store, hb.nodes, hb.calls⟩
  · rename_i n hi _
    have hn := hb.nodes n (List.mem_of_getElem? hi)
    rcases hreap : n.claims.reap b.hub.store b.hub.time with ⟨e | es, s⟩
    · have hkeeps : Node.Keeps t b.hub { b.hub with store := s } n :=
        Node.keeps_reap hn.config.governs (congrArg Prod.snd hreap).symm hn
      exact ⟨hkeeps.store, hkeeps.store.isSound ht hb.store, hb.nodes, hb.calls⟩
    · exact keeps_of_node hb ht
        (Node.keeps_reap hn.config.governs (congrArg Prod.snd hreap).symm (hn.count _)) hb.calls

theorem keeps_beginShutdown (hb : b.IsWithin t) (ht : 0 < t.limit) (i : Nat) :
    Keeps t b (b.beginShutdown i) := by
  unfold beginShutdown
  split
  · rename_i n hi
    have hn := (hb.nodes n (List.mem_of_getElem? hi)).cancel
    have hcalls : ∀ c ∈ b.calls ++ [.shutdown i (ShutdownStage.begin_ b.hub n).1],
        c.IsWithin t :=
      List.forall_mem_append.mpr ⟨hb.calls, List.forall_mem_singleton.mpr trivial⟩
    have hkeeps := keeps_of_node hb ht (i := i) (Node.Keeps.of_store_eq (h := b.hub) rfl hn) hcalls
    exact ⟨hkeeps.store, hkeeps.bus.store, hkeeps.bus.nodes, hkeeps.bus.calls⟩
  · exact .refl hb

end Bus

/-- An action under the terms: all dispatchers have the one limit, and other clients of the store
leave it to dispatchers to resolve claims. -/
def BusAction.Respects (t : RetryTerms) : BusAction → Prop
  | .add _ config registry _ _ => config.IsOn t ∧ registry.IsOrdinary t
  | .operate op => op.IsOrdinary t
  | _ => True

namespace Bus

variable {b : Bus}

/-- Whatever happens keeps to the terms. -/
theorem keeps_act (hb : b.IsWithin t) (ht : 0 < t.limit) {a : BusAction} (ha : a.Respects t)
    (hclaim : ∀ e ∈ a.claim?, e.errorCount < t.limit) : Keeps t b (b.act a) := by
  cases a with
  | task task draw =>
    simp only [act]
    cases hstep : b.step? draw task with
    | none => exact .refl hb
    | some b' => exact keeps_step? hb ht hstep
  | add id config registry clock isAttached =>
    exact keeps_add hb (.unstarted ha.1 ha.2 id clock isAttached)
  | start i => exact keeps_getD_onNode? hb ht fun n hn => Node.keeps_start hn b.hub
  | post i type event keys =>
    exact keeps_getD_onNode? hb ht (f := fun h n => ((n.post h type event keys).2, n))
      fun n hn => Node.keeps_post hn b.hub type event keys
  | process i => exact keeps_give hb i .claiming trivial
  | handle i e =>
    refine keeps_give hb i (.between 0 [e]) fun f hf => ?_
    rw [List.mem_singleton.mp hf]
    exact hclaim e rfl
  | resolve i e outcome =>
    exact keeps_give hb i (.attempting 0 (.judged e outcome) []) ⟨hclaim e rfl, by simp⟩
  | reapOnce i => exact keeps_reapOnce hb ht i
  | shutdown i => exact keeps_beginShutdown hb ht i
  | drop id => exact keeps_drop hb id
  | operate op =>
    have hleads : Store.Leads (StoreOp.Respects t) b.hub.store (b.hub.operate op).2.store := by
      rw [Hub.store_operate]
      exact .of_apply ha.respects _ _
    exact ⟨hleads, hleads.isSound ht hb.store, hb.nodes, hb.calls⟩
  | breakDown breakdowns => exact ⟨.refl _ _, hb.store, hb.nodes, hb.calls⟩
  | setTime start now => exact ⟨.refl _ _, hb.store, hb.nodes, hb.calls⟩
  | setClock i clock =>
    exact ⟨.refl _ _, hb.store, nodes_modify hb (fun _ hn => hn.withClock clock) i, hb.calls⟩

end Bus

namespace Scene

variable {s : Scene} {actions : List BusAction}

/-- The store of a scene. -/
def store (s : Scene) : Store := s.bus.hub.store

/-- A scene that keeps to the terms. Claims that are lost keep having attempts to spare. -/
structure IsWithin (t : RetryTerms) (s : Scene) : Prop where
  bus : s.bus.IsWithin t
  claims : ∀ e ∈ s.claims, e.errorCount < t.limit

theorem isWithin_startingAt (t : RetryTerms) (start : Timestamp) :
    (startingAt start).IsWithin t where
  bus := ⟨Store.isSound_empty t, by simp [startingAt, Bus.startingAt],
    by simp [startingAt, Bus.startingAt]⟩
  claims := by simp [startingAt]

theorem keeps_act (hs : s.IsWithin t) (ht : 0 < t.limit) {a : BusAction} (ha : a.Respects t) :
    Store.Leads (StoreOp.Respects t) s.store (s.act a).store ∧ (s.act a).IsWithin t := by
  unfold act
  split
  · rename_i hclaim
    have hkeeps := Bus.keeps_act hs.bus ht ha fun e he => hs.claims e (hclaim e he)
    refine ⟨hkeeps.store, hkeeps.bus, ?_⟩
    intro e he
    rcases List.mem_append.mp he with he | he
    · exact hs.claims e he
    · obtain ⟨hlive, hstate⟩ := List.mem_filter.mp he
      exact (hkeeps.bus.store.within e (List.mem_append_left _ hlive)).spare
        (.inr (by simpa using hstate))
  · exact ⟨.refl _ _, hs⟩

theorem keeps_run (hs : s.IsWithin t) (ht : 0 < t.limit) (h : ∀ a ∈ actions, a.Respects t) :
    Store.Leads (StoreOp.Respects t) s.store (s.run actions).store ∧ (s.run actions).IsWithin t := by
  induction actions generalizing s with
  | nil => exact ⟨.refl _ _, hs⟩
  | cons a rest ih =>
    obtain ⟨hfirst, hact⟩ := keeps_act hs ht (h a (List.mem_cons_self ..))
    obtain ⟨hrest, hrun⟩ := ih hact fun b hb => h b (List.mem_cons_of_mem _ hb)
    exact ⟨hfirst.trans hrest, hrun⟩

end Scene

/-- Entries within the terms pass the check of the retry limit. -/
theorem Trial.Invariant.retryCountBounded_of_isWithin {es : List Entry}
    (h : ∀ e ∈ es, e.IsWithin t) : retryCountBounded es t.limit = .ok () := by
  induction es with
  | nil => rfl
  | cons e rest ih =>
    have he := h e (List.mem_cons_self ..)
    have hspare : (decide (e.errorCount < t.limit) || e.state != .available) = true := by
      by_cases hstate : e.state = .available
      · simp [he.spare (.inl hstate)]
      · simp [hstate]
    have hrest := ih fun f hf => h f (List.mem_cons_of_mem _ hf)
    unfold retryCountBounded at hrest ⊢
    rw [List.forM_eq_forM] at hrest ⊢
    rw [List.forM_cons, hrest]
    simp only [require, he.bounded, hspare, decide_true, ↓reduceIte]
    rfl

namespace Scene

variable {s : Scene} {actions : List BusAction}

/-- The retry budget of a scene and of everything that may follow. -/
structure KeepsBudget (t : RetryTerms) (s : Scene) : Prop where
  bounded : ∀ e ∈ s.store.stored, e.errorCount ≤ t.limit
  /-- Who may be claimed, or is, has attempts to spare. -/
  spare : ∀ e ∈ s.store.stored, e.state = .available ∨ e.state = .inProcessing →
    e.errorCount < t.limit
  /-- The check of the retry limit passes, on whichever entries it is made. -/
  checked : ∀ es ⊆ s.store.stored, Trial.Invariant.retryCountBounded es t.limit = .ok ()
  /-- An entry whose attempts are spent stays as it is and can never be claimed. -/
  exhausted : ∀ e ∈ s.store.stored, t.limit ≤ e.errorCount →
    ∀ later, (∀ a ∈ later, a.Respects t) →
      e ∈ (s.run later).store.stored ∧ ∀ f ∈ (s.run later).store.stored, f.id = e.id →
        ∀ now, f.isClaimableAt now = false
  /-- Without a penalty nobody is given up for being taken back. -/
  notReaped : t.penalty = false → ∀ e ∈ s.store.stored, e.state ≠ .reaped

theorem IsWithin.keepsBudget (hs : s.IsWithin t) (ht : 0 < t.limit) : s.KeepsBudget t where
  bounded e he := (hs.bus.store.within e he).bounded
  spare e he := (hs.bus.store.within e he).spare
  checked es hes := Trial.Invariant.retryCountBounded_of_isWithin fun e he =>
    hs.bus.store.within e (hes he)
  exhausted := by
    intro e he hspent later hlater
    have hterminal := (hs.bus.store.within e he).isTerminal hspent
    obtain ⟨hleads, hrun⟩ := keeps_run hs ht hlater
    have hmem := hleads.mem_stored_of_isTerminal hs.bus.store.wellFormed he hterminal
    refine ⟨hmem, fun f hf hid now => ?_⟩
    rw [hrun.bus.store.wellFormed.eq_of_id_eq hf hmem hid, Bool.eq_false_iff]
    intro hclaimable
    rw [(Entry.isClaimableAt_iff.mp hclaimable).1] at hterminal
    cases hterminal
  notReaped hpenalty e he := (hs.bus.store.within e he).notReaped hpenalty

/-- Whatever dispatchers of one limit and other clients do in whatever order, no entry is tried more
often than the limit allows. -/
theorem retries_bounded (t : RetryTerms) (ht : 0 < t.limit) (start : Timestamp)
    (actions : List BusAction) (h : ∀ a ∈ actions, a.Respects t) :
    ((startingAt start).run actions).KeepsBudget t :=
  (keeps_run (isWithin_startingAt t start) ht h).2.keepsBudget ht

/-- One failed attempt is enough, and being taken back counts as none. -/
def oneAttempt : RetryTerms := ⟨1, false⟩

/-- A dispatcher without handlers processes a claim that it has lost, and then the claim of another
node that came after it. -/
def lostClaimRun : List BusAction :=
  let step (i : Nat) : BusAction := .task (.call i) fun _ _ => none
  let config := { DispatchConfig.standard with
    retryPolicy := { RetryPolicy.standard with maxFailureRetries := 1 } }
  let order : NewEntry := ⟨⟨"order", []⟩, ⟨"a"⟩, .none⟩
  [.add ⟨"a"⟩ config .empty .shared false, .operate (.append order),
    .process 0, step 0, .operate (.release ⟨"a"⟩), .operate (.claim 1 ⟨"b"⟩ none),
    step 0, step 0, step 0, step 0,
    .handle 0 ((Entry.ofNew ⟨1⟩ order .epoch).claimedBy ⟨"b"⟩ .epoch),
    step 1, step 1, step 1, step 1]

theorem respects_lostClaimRun : ∀ a ∈ lostClaimRun, a.Respects oneAttempt := by
  have hconfig : DispatchConfig.IsOn oneAttempt { DispatchConfig.standard with
      retryPolicy := { RetryPolicy.standard with maxFailureRetries := 1 } } :=
    ⟨rfl, fun hpenalty => hpenalty⟩
  have hregistry : Registry.empty.IsOrdinary oneAttempt := fun h hh => by cases hh
  refine List.forall_mem_cons.mpr ⟨⟨hconfig, hregistry⟩, ?_⟩
  simp [BusAction.Respects, StoreOp.IsOrdinary]

/-- The lost claim is refused and the later one spends the only attempt. -/
theorem retries_bounded_lostClaimRun :
    0 < oneAttempt.limit ∧ (∀ a ∈ lostClaimRun, a.Respects oneAttempt) ∧
    (((startingAt .epoch).run lostClaimRun).bus.nodes.map fun n => n.stats.lostRaces) = [1] ∧
    (((startingAt .epoch).run lostClaimRun).store.live.map fun e => (e.state, e.errorCount)) =
      [(.failed, 1)] ∧
    ((startingAt .epoch).run lostClaimRun).KeepsBudget oneAttempt :=
  ⟨by decide, respects_lostClaimRun, by decide +kernel, by decide +kernel,
    retries_bounded oneAttempt (by decide) .epoch lostClaimRun respects_lostClaimRun⟩

end Scene

end DurableQueue
