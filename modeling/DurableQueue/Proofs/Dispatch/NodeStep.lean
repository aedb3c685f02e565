import DurableQueue.Proofs.Dispatch.Within
import DurableQueue.Proofs.Store.Failures

/-!
Everything that one step can do to a dispatcher.

`Node.Step` lists what a step of a task, of a call or of an order from outside changes of the
dispatcher that takes it and of the hub. Queue, workers and claim loop are told apart in every
detail; what a handler or the reaper does is one case, in which the store is operated on at most
once (`Hub.Serves`). `Node.Begins` lists the same of an attempt to start a dispatcher. Every
function that makes a step makes one of the list.
-/

namespace DurableQueue

/-- What work makes of a hub: notes are written, breakdowns used up, and the store is operated on at
most once. -/
inductive Hub.Serves (h : Hub) : Hub → Prop where
  | rests (journal : List (Nat × Note)) (breakdowns : Breakdowns) :
    Serves h { h with journal, breakdowns }
  | operates (op : StoreOp) (journal : List (Nat × Note)) (breakdowns : Breakdowns) :
    Serves h { (h.operate op).2 with journal, breakdowns }

/-- Two registries of the same handlers, whatever these remember. -/
def Registry.SameHandlers (r r' : Registry) : Prop :=
  r'.handlers.map RegisteredHandler.handler = r.handlers.map RegisteredHandler.handler

/-- What a step makes of an attempt that is not over with it. -/
inductive Attempt.GoesTo : Attempt → Attempt → Prop where
  | performed {e : Entry} (effect : Effect) (rest : List Effect) (result : HandlerResult) :
    GoesTo (.handling e (effect :: rest) result) (.handling e rest result)
  /-- The handler is to sleep. -/
  | slept {e : Entry} (span : Span) (wakeAt : Nat) (rest : List Effect) (result : HandlerResult) :
    GoesTo (.handling e (.sleep span :: rest) result) (.sleeping e wakeAt rest result)
  | woke {e : Entry} (wakeAt : Nat) (effects : List Effect) (result : HandlerResult) :
    GoesTo (.sleeping e wakeAt effects result) (.handling e effects result)
  /-- The handler ends. -/
  | judged {e : Entry} (result : HandlerResult) :
    GoesTo (.handling e [] result) (.judged e (result.outcome e.payload.eventType))
  | built {e : Entry} (next : Entry) (outcome : DispatchOutcome) :
    GoesTo (.judged e outcome) (.storing e next outcome)
  | stored {e : Entry} (next : Entry) (outcome : DispatchOutcome) (verdict : Verdict) :
    GoesTo (.storing e next outcome) (.booking e verdict)

/-- An attempt that is booked is over. -/
def Attempt.IsBooking (a : Attempt) : Prop := ∃ e verdict, a = .booking e verdict

/-- What can happen to one dispatcher in one step, and to the hub by it. -/
inductive Node.Step (h : Hub) (n : Node) : Hub → Node → Prop where
  /-- Its queue, its workers and its claim loop are left alone. -/
  | aside {h' : Hub} {registry : Registry} {stats : DispatchStats} {clock : NodeClock}
    {reaper : Option Reaper} {isCancelled : Bool} (serves : h.Serves h')
    (skips : stats.skippedClaimCycles = n.stats.skippedClaimCycles)
    (stays : n.reaper = none ∨ n.reaper = some .stopped → reaper = n.reaper)
    (handlers : n.registry.SameHandlers registry) :
    Step h n h' { n with registry, stats, clock, reaper, isCancelled }
  /-- A worker takes the first entry of the queue. -/
  | taken {i : Nat} {e : Entry} {rest : List Entry} {stats : DispatchStats}
    (idle : n.workers[i]? = some .idle) (queue : n.queue = e :: rest)
    (skips : stats.skippedClaimCycles = n.stats.skippedClaimCycles) :
    Step h n h { n with
      queue := rest, workers := n.workers.set i (.busy (Attempt.begin_ n e).1), stats }
  /-- A worker goes on with its entry. -/
  | worked {h' : Hub} {i : Nat} {a a' : Attempt} {registry : Registry} {stats : DispatchStats}
    (busy : n.workers[i]? = some (.busy a)) (goes : a.GoesTo a') (serves : h.Serves h')
    (skips : stats.skippedClaimCycles = n.stats.skippedClaimCycles)
    (handlers : n.registry.SameHandlers registry) :
    Step h n h' { n with registry, workers := n.workers.set i (.busy a'), stats }
  /-- A worker is done with its entry. -/
  | finished {h' : Hub} {i : Nat} {a : Attempt} {w : Worker} {registry : Registry}
    {stats : DispatchStats} (busy : n.workers[i]? = some (.busy a))
    (free : w = .idle ∧ a.IsBooking ∨ w = .stopped) (serves : h.Serves h')
    (skips : stats.skippedClaimCycles = n.stats.skippedClaimCycles)
    (handlers : n.registry.SameHandlers registry) :
    Step h n h' { n with registry, workers := n.workers.set i w, stats }
  /-- A worker that has no entry stops. -/
  | retired {i : Nat} (idle : n.workers[i]? = some .idle) :
    Step h n h { n with workers := n.workers.set i .stopped }
  /-- All workers are made to stop. -/
  | cut {stats : DispatchStats} (skips : stats.skippedClaimCycles = n.stats.skippedClaimCycles) :
    Step h n h { n with workers := n.workers.map fun _ => .stopped, stats }
  | checked (loop : n.claimLoop = some .checking) (room : n.config.maxEntriesClaimed ≤ n.room) :
    Step h n h { n with claimLoop := some .claiming }
  /-- There is no room for a batch. -/
  | skipped (loop : n.claimLoop = some .checking) (room : n.room < n.config.maxEntriesClaimed) :
    Step h n h { n with
      claimLoop := some (.waiting (h.after n.config.claimInterval))
      stats := { n.stats with skippedClaimCycles := n.stats.skippedClaimCycles + 1 } }
  | claimed {es : List Entry} {s : Store} {stats : DispatchStats}
    (loop : n.claimLoop = some .claiming)
    (claim : n.claims.claim h.store n.config.maxEntriesClaimed h.time = (.ok es, s))
    (skips : stats.skippedClaimCycles = n.stats.skippedClaimCycles) :
    Step h n { h with store := s }
      { n with claimLoop := some (.sending es (es.length == n.config.maxEntriesClaimed)), stats }
  /-- The claim fails. -/
  | missed {e : DispatchError} {s : Store} {stats : DispatchStats}
    (loop : n.claimLoop = some .claiming)
    (claim : n.claims.claim h.store n.config.maxEntriesClaimed h.time = (.error e, s))
    (skips : stats.skippedClaimCycles = n.stats.skippedClaimCycles) :
    Step h n { h with store := s }
      { n with claimLoop := some (.waiting (h.after n.config.claimInterval)), stats }
  | sent {e : Entry} {rest : List Entry} {full : Bool}
    (loop : n.claimLoop = some (.sending (e :: rest) full)) (room : n.room ≠ 0) :
    Step h n h { n with queue := n.queue ++ [e], claimLoop := some (.sending rest full) }
  | yielded (loop : n.claimLoop = some (.sending [] true)) :
    Step h n h { n with claimLoop := some .yielding }
  | resumed (loop : n.claimLoop = some .yielding) : Step h n h { n with claimLoop := some .checking }
  /-- After a batch that was not full the claim loop waits. -/
  | parked (loop : n.claimLoop = some (.sending [] false)) :
    Step h n h { n with claimLoop := some (.waiting (h.after n.config.claimInterval)) }
  /-- The time has come for which the claim loop waited. -/
  | woken {deadline : Nat} (loop : n.claimLoop = some (.waiting deadline)) :
    Step h n h { n with claimLoop := some .checking }
  | heard {deadline : Nat} {id : SubscriptionId} {e : TransactionEvent} {rest : List TransactionEvent}
    (loop : n.claimLoop = some (.waiting deadline)) (subscription : n.subscription = some id)
    (queued : h.notifier.queued id = e :: rest) :
    Step h n { h with notifier := (h.notifier.receive id).2 }
      { n with claimLoop := some (.draining (e.owner == n.id) deadline) }
  | drained {own heard : Bool} {deadline : Nat} {id : SubscriptionId}
    (loop : n.claimLoop = some (.draining own deadline)) (subscription : n.subscription = some id)
    (hears : heard = (own || (h.notifier.queued id).any fun e => e.owner == n.id)) :
    Step h n { h with notifier := (h.notifier.drain id).2 }
      { n with claimLoop := some (if heard then .checking else .waiting deadline) }
  /-- There is nothing to drain any more. -/
  | deafened {own : Bool} {deadline : Nat} (loop : n.claimLoop = some (.draining own deadline))
    (subscription : n.subscription = none) :
    Step h n h { n with claimLoop := some (.waiting deadline) }
  /-- The claim loop ends, perhaps because it is made to. -/
  | stopped {breakdowns : Breakdowns} {reaper : Option Reaper} (running : n.isBackgroundOver = false)
    (ends : reaper = n.reaper ∨ reaper = some .stopped) :
    Step h n { (ClaimLoop.stop h n).1 with breakdowns }
      { n with claimLoop := some .stopped, subscription := none, reaper }

/-- What starting a dispatcher comes to, and makes of the hub. -/
inductive Node.Begins (h : Hub) (n : Node) : Hub → Node → Prop where
  /-- It cannot be started. -/
  | refused : Begins h n h n
  /-- It only accepts entries. -/
  | declared (unstarted : n.isStarted = false) : Begins h n h { n with isStarted := true }
  | started {stats : DispatchStats} {reaper : Option Reaper} (unstarted : n.isStarted = false)
    (mode : n.config.mode ≠ .stickyEvents)
    (skips : stats.skippedClaimCycles = n.stats.skippedClaimCycles) :
    Begins h n h { n with
      isStarted := true, workers := List.replicate n.config.maxDispatchThreads .idle
      claimLoop := some .checking, subscription := none, stats, reaper }
  /-- It is started and subscribes. -/
  | subscribed {stats : DispatchStats} {reaper : Option Reaper} (unstarted : n.isStarted = false)
    (mode : n.config.mode = .stickyEvents)
    (skips : stats.skippedClaimCycles = n.stats.skippedClaimCycles) :
    Begins h n { h with notifier := h.notifier.subscribe.2 } { n with
      isStarted := true, workers := List.replicate n.config.maxDispatchThreads .idle
      claimLoop := some .checking, subscription := some h.notifier.subscribe.1, stats, reaper }

theorem Registry.SameHandlers.refl (r : Registry) : r.SameHandlers r := rfl

theorem Registry.SameHandlers.trans {r r' r'' : Registry} (h : r.SameHandlers r')
    (h' : r'.SameHandlers r'') : r.SameHandlers r'' :=
  Eq.trans h' h

theorem Registry.sameHandlers_remember (r : Registry) (eventType : String) (d : Delivery) :
    r.SameHandlers (r.remember eventType d) := by
  rw [SameHandlers, remember, List.map_map]
  refine List.map_congr_left fun h _ => ?_
  simp only [Function.comp_apply]
  split <;> rfl

/-- What work changes of a dispatcher: what its handlers remember and its counters, but not how often
it had no room. -/
def Node.WorksTo (n n' : Node) : Prop :=
  ∃ registry stats, n' = { n with registry, stats } ∧
    stats.skippedClaimCycles = n.stats.skippedClaimCycles ∧ n.registry.SameHandlers registry

theorem Node.WorksTo.refl (n : Node) : n.WorksTo n := ⟨n.registry, n.stats, rfl, rfl, .refl _⟩

theorem Node.WorksTo.count {n n' : Node} (h : n.WorksTo n') {f : DispatchStats → DispatchStats}
    (hf : ∀ s, (f s).skippedClaimCycles = s.skippedClaimCycles) : n.WorksTo (n'.count f) := by
  obtain ⟨registry, stats, rfl, hskips, hhandlers⟩ := h
  exact ⟨registry, f stats, rfl, (hf stats).trans hskips, hhandlers⟩

theorem DispatchStats.skippedClaimCycles_book (s : DispatchStats) (v : Verdict) :
    (s.book v).skippedClaimCycles = s.skippedClaimCycles := by
  cases v <;> rfl

namespace Hub

variable {h : Hub}

theorem Serves.refl (h : Hub) : h.Serves h := .rests h.journal h.breakdowns

/-- An operation that announces nothing changes the store alone. -/
theorem Serves.of_apply {op : StoreOp} (hquiet : ∀ a, op.announces a = []) {s : Store}
    (hs : (h.store.apply op h.time).2 = s) (breakdowns : Breakdowns) :
    h.Serves { h with store := s, breakdowns } := by
  have hserves := Serves.operates (h := h) op h.journal breakdowns
  rw [operate_eq, hquiet, hs] at hserves
  exact hserves

theorem Serves.of_claim {m : ClaimManager} {count : Nat} {a : Except DispatchError (List Entry)}
    {s : Store} (hclaim : m.claim h.store count h.time = (a, s)) :
    h.Serves { h with store := s } := by
  have hs : (h.store.apply (.claim count m.node m.ownerFilter) h.time).2 = s := by
    rw [← ClaimManager.snd_claim, hclaim]
  exact .of_apply (fun _ => rfl) hs h.breakdowns

theorem Serves.of_reap {m : ClaimManager} {a : Except DispatchError (List Entry)} {s : Store}
    (hreap : m.reap h.store h.time = (a, s)) : h.Serves { h with store := s } := by
  have hs : (h.store.apply (.reap m.reapPolicy) h.time).2 = s := by
    rw [← ClaimManager.snd_reap, hreap]
  exact .of_apply (fun _ => rfl) hs h.breakdowns

theorem Serves.of_release {id : NodeId} {a : Except StoreError (List Entry)} {s : Store}
    (hrelease : h.store.release id h.time = (a, s)) : h.Serves { h with store := s } := by
  have hs : (h.store.apply (.release id) h.time).2 = s := by
    simp only [Store.apply, Store.Outcome.snd_map, hrelease]
  exact .of_apply (fun _ => rfl) hs h.breakdowns

end Hub

variable {h h' : Hub} {n n' : Node} {draw : Draw}

namespace Attempt

variable {a : Attempt} {p : Progress}

theorem entry_begin_ (n : Node) (e : Entry) : (begin_ n e).1.entry = e := by
  unfold begin_
  simp only
  split <;> rfl

theorem snd_begin_ (n : Node) (e : Entry) :
    (begin_ n e).2 = n.count fun s => { s with inFlight := s.inFlight + 1 } := by
  unfold begin_
  simp only
  split <;> rfl

/-- How an attempt begins depends on the handlers only. -/
theorem fst_begin_ (hregistry : n'.registry = n.registry) (e : Entry) :
    (begin_ n' e).1 = (begin_ n e).1 := by
  unfold begin_
  simp only [Node.count, hregistry]
  split <;> rfl

theorem worksTo_leave (h : n.WorksTo n') : n.WorksTo (leave n') := by
  unfold leave
  exact h.count fun _ => rfl

theorem serves_perform (h : Hub) (n : Node) (e : Entry) (effect : Effect) :
    h.Serves (perform h n e effect).1 ∧ n.WorksTo (perform h n e effect).2 := by
  cases effect with
  | note note => exact ⟨.rests _ _, .refl n⟩
  | sleep span => exact ⟨.refl h, .refl n⟩
  | remember d => exact ⟨.refl h, _, _, rfl, rfl, n.registry.sameHandlers_remember _ d⟩
  | operate op => exact ⟨.operates op (h.operate op).2.journal (h.operate op).2.breakdowns, .refl n⟩

theorem GoesTo.entry {a' : Attempt} (h : a.GoesTo a') : a'.entry = a.entry := by
  cases h <;> rfl

theorem serves_store (h : Hub) (n : Node) (e next : Entry) (outcome : DispatchOutcome) :
    h.Serves (store h n e next outcome).2.1 ∧ n.WorksTo (store h n e next outcome).2.2 ∧
      (store h n e next outcome).1 ≠ .finished ∧
      ∀ a, (store h n e next outcome).1 = .going a → GoesTo (.storing e next outcome) a := by
  unfold store
  split
  · exact ⟨.rests _ _, worksTo_leave (.refl n), nofun, fun a ha => by cases ha⟩
  · have hs : (h.store.apply (.update e next) h.time).2 = (h.store.update e next h.time).2 :=
      Store.Outcome.snd_map _ _
    exact ⟨.of_apply (fun _ => rfl) hs h.breakdowns, .refl n, nofun,
      fun a ha => by cases ha; exact .stored next outcome _⟩

/-- A step of an attempt leads to a later place of it. Only one that is booked is finished. -/
theorem serves_step? (hstep : a.step? draw h n = some (p, h', n')) :
    h.Serves h' ∧ n.WorksTo n' ∧ (p = .finished → a.IsBooking) ∧
      ∀ a', p = .going a' → a.GoesTo a' := by
  have hgoing {a' : Attempt} (hp : Progress.going a' = .finished) : a.IsBooking := by cases hp
  cases a with
  | handling e effects result =>
    cases effects with
    | nil =>
      cases hstep
      exact ⟨.refl h, .refl n, hgoing, fun a' ha' => by cases ha'; exact .judged result⟩
    | cons effect rest =>
      obtain ⟨hserves, hworks⟩ := serves_perform h n e effect
      cases effect with
      | sleep span =>
        cases hstep
        exact ⟨.refl h, .refl n, hgoing, fun a' ha' => by cases ha'; exact .slept span _ rest result⟩
      | _ =>
        cases hstep
        exact ⟨hserves, hworks, hgoing, fun a' ha' => by cases ha'; exact .performed _ rest result⟩
  | sleeping e wakeAt effects result =>
    simp only [step?] at hstep
    split at hstep
    · cases hstep
      exact ⟨.refl h, .refl n, hgoing, fun a' ha' => by cases ha'; exact .woke wakeAt effects result⟩
    · cases hstep
  | judged e outcome =>
    simp only [step?] at hstep
    split at hstep
    · cases hstep
      exact ⟨.refl h, .refl n, hgoing, fun a' ha' => by cases ha'; exact .built _ outcome⟩
    · cases hstep
      exact ⟨.refl h, worksTo_leave (.refl n), fun hp => (by cases hp), fun a ha => by cases ha⟩
  | storing e next outcome =>
    obtain ⟨hserves, hworks, hgoing, hgoes⟩ := serves_store h n e next outcome
    simp only [step?, Option.some.injEq] at hstep
    rw [hstep] at hserves hworks hgoing hgoes
    exact ⟨hserves, hworks, fun hp => absurd hp hgoing, hgoes⟩
  | booking e v =>
    cases hstep
    have hbooked : n.WorksTo (n.count fun s => s.book v) :=
      .count (.refl n) fun s => s.skippedClaimCycles_book v
    exact ⟨.refl h, worksTo_leave hbooked, fun _ => ⟨e, v, rfl⟩, fun a ha => by cases ha⟩

end Attempt

namespace Node.Step

/-- Work beside the tasks of a dispatcher. -/
theorem of_worksTo (hworks : n.WorksTo n') (hserves : h.Serves h') : n.Step h h' n' := by
  obtain ⟨registry, stats, rfl, hskips, hhandlers⟩ := hworks
  exact .aside hserves hskips (fun _ => rfl) hhandlers

theorem of_worker {i : Nat} (hstep : Worker.step? draw h n i = some (h', n')) : n.Step h h' n' := by
  unfold Worker.step? at hstep
  split at hstep
  · rename_i hidle
    split at hstep
    · cases hstep
      exact .retired hidle
    · split at hstep
      · rename_i e rest hqueue
        have hbegun := Attempt.snd_begin_ { n with queue := rest } e
        have hsame : (Attempt.begin_ { n with queue := rest } e).1 = (Attempt.begin_ n e).1 :=
          Attempt.fst_begin_ (show { n with queue := rest }.registry = n.registry from rfl) e
        rcases hbegin : Attempt.begin_ { n with queue := rest } e with ⟨a, n₁⟩
        rw [hbegin] at hbegun hsame hstep
        cases hbegun
        cases hsame
        cases hstep
        exact .taken hidle hqueue rfl
      · split at hstep
        · cases hstep
          exact .retired hidle
        · cases hstep
  · rename_i a hbusy
    obtain ⟨⟨p, h₁, n₁⟩, hattempt, heq⟩ := Option.map_eq_some_iff.mp hstep
    obtain ⟨hserves, ⟨registry, stats, rfl, hskips, hhandlers⟩, hbooking, hgoes⟩ :=
      Attempt.serves_step? hattempt
    cases p with
    | going a' =>
      cases heq
      exact .worked hbusy (hgoes a' rfl) hserves hskips hhandlers
    | finished =>
      cases heq
      exact .finished hbusy (.inl ⟨rfl, hbooking rfl⟩) hserves hskips hhandlers
    | brokeDown =>
      cases heq
      exact .finished hbusy (.inr rfl) hserves hskips hhandlers
  · cases hstep
  · cases hstep

/-- The claim loop ends on its own. -/
theorem of_stop {c : ClaimLoop} (hloop : n.claimLoop = some c) (hrunning : c ≠ .stopped)
    (b : Breakdowns) : n.Step h (ClaimLoop.stop { h with breakdowns := b } n).1
      (ClaimLoop.stop { h with breakdowns := b } n).2 := by
  have hhub : (ClaimLoop.stop { h with breakdowns := b } n).1 =
      { (ClaimLoop.stop h n).1 with breakdowns := b } := by
    unfold ClaimLoop.stop
    cases n.subscription <;> rfl
  rw [hhub]
  refine .stopped ?_ (.inl rfl)
  rw [isBackgroundOver, isQueueClosed, hloop]
  cases c <;> first | rfl | exact absurd rfl hrunning

theorem of_check (hloop : n.claimLoop = some .checking) :
    n.Step h (ClaimLoop.check h n).1 (ClaimLoop.check h n).2 := by
  unfold ClaimLoop.check
  split
  · exact of_stop hloop nofun h.breakdowns
  · split
    · rename_i hroom
      exact .skipped hloop hroom
    · rename_i hroom
      exact .checked hloop (Nat.le_of_not_lt hroom)

theorem of_claim (hloop : n.claimLoop = some .claiming) :
    n.Step h (ClaimLoop.claim h n).1 (ClaimLoop.claim h n).2 := by
  unfold ClaimLoop.claim
  split
  · exact of_stop hloop nofun _
  · simp only
    rcases hclaim : n.claims.claim h.store n.config.maxEntriesClaimed h.time with ⟨_ | es, s⟩
    · exact .missed hloop hclaim rfl
    · exact .claimed hloop hclaim rfl

theorem of_awake? {deadline : Nat} (hloop : n.claimLoop = some (.waiting deadline))
    (hstep : ClaimLoop.awake? h n deadline = some (h', n')) : n.Step h h' n' := by
  unfold ClaimLoop.awake? at hstep
  split at hstep
  · obtain ⟨rfl, rfl⟩ := Prod.mk.inj (Option.some.inj hstep)
    exact of_stop hloop nofun _
  · simp only at hstep
    split at hstep
    · rename_i e notifier hreceived
      cases hstep
      obtain ⟨id, hid, hreceived⟩ := Option.bind_eq_some_iff.mp hreceived
      cases hqueued : h.notifier.queued id with
      | nil => simp [Notifier.receive, hqueued] at hreceived
      | cons first rest =>
        simp only [Notifier.receive, hqueued, List.head?_cons, Option.some.injEq,
          Prod.mk.injEq] at hreceived
        obtain ⟨rfl, rfl⟩ := hreceived
        exact .heard hloop hid hqueued
    · split at hstep
      · cases hstep
        exact .woken hloop
      · cases hstep

theorem of_drain {own : Bool} {deadline : Nat} (hloop : n.claimLoop = some (.draining own deadline)) :
    n.Step h (ClaimLoop.drain h n own deadline).1 (ClaimLoop.drain h n own deadline).2 := by
  unfold ClaimLoop.drain
  split
  · rename_i hid
    exact .deafened hloop hid
  · rename_i id hid
    exact .drained hloop hid rfl

theorem of_claimLoop (hstep : ClaimLoop.step? h n = some (h', n')) : n.Step h h' n' := by
  unfold ClaimLoop.step? at hstep
  split at hstep
  · rename_i hloop
    obtain ⟨rfl, rfl⟩ := Prod.mk.inj (Option.some.inj hstep)
    exact of_check hloop
  · rename_i hloop
    obtain ⟨rfl, rfl⟩ := Prod.mk.inj (Option.some.inj hstep)
    exact of_claim hloop
  · rename_i hloop
    split at hstep
    · cases hstep
    · rename_i hroom
      cases hstep
      exact .sent hloop hroom
  · rename_i full hloop
    cases full with
    | true =>
      cases hstep
      exact .yielded hloop
    | false =>
      cases hstep
      exact .parked hloop
  · rename_i hloop
    cases hstep
    exact .resumed hloop
  · rename_i hloop
    exact of_awake? hloop hstep
  · rename_i hloop
    obtain ⟨rfl, rfl⟩ := Prod.mk.inj (Option.some.inj hstep)
    exact of_drain hloop
  · cases hstep
  · cases hstep

theorem of_reaper (hstep : Reaper.step? h n = some (h', n')) : n.Step h h' n' := by
  unfold Reaper.step? at hstep
  split at hstep
  · rename_i wakeAt hreaper
    have hrunning {r : Option Reaper} :
        n.reaper = none ∨ n.reaper = some .stopped → r = n.reaper := by
      rw [hreaper]
      nofun
    split at hstep
    · cases hstep
      exact .aside (.refl h) rfl hrunning (.refl _)
    · split at hstep
      · cases hstep
        exact .aside (.refl h) rfl hrunning (.refl _)
      · cases hstep
  · rename_i hreaper
    have hrunning {r : Option Reaper} :
        n.reaper = none ∨ n.reaper = some .stopped → r = n.reaper := by
      rw [hreaper]
      nofun
    unfold Reaper.reap at hstep
    split at hstep
    · cases hstep
      exact .aside (.rests _ _) rfl hrunning (.refl _)
    · rcases hreap : n.claims.reap h.store h.time with ⟨_ | es, s⟩
      · rw [hreap] at hstep
        cases hstep
        exact .aside (.of_reap hreap) rfl hrunning (.refl _)
      · rw [hreap] at hstep
        cases hstep
        exact .aside (.of_reap hreap) rfl hrunning (.refl _)
  · cases hstep
  · cases hstep

theorem of_process {stage : ProcessStage} {next : ProcessStage ⊕ CallResult}
    (hstep : stage.step? draw h n = some (next, h', n')) : n.Step h h' n' := by
  cases stage with
  | claiming =>
    simp only [ProcessStage.step?] at hstep
    split at hstep
    · cases hstep
      exact of_worksTo (.refl n) (.rests _ _)
    · rcases hclaim : n.claims.claim h.store n.config.maxEntriesClaimed h.time with ⟨_ | es, s⟩
      · rw [hclaim] at hstep
        cases hstep
        exact of_worksTo (.refl n) (.of_claim hclaim)
      · rw [hclaim] at hstep
        cases hstep
        exact of_worksTo (.count (.refl n) fun _ => rfl) (.of_claim hclaim)
  | between count rest =>
    cases rest with
    | nil =>
      cases hstep
      exact of_worksTo (.refl n) (.refl h)
    | cons e rest =>
      have hbegun := Attempt.snd_begin_ n e
      rcases hbegin : Attempt.begin_ n e with ⟨a, n₁⟩
      rw [hbegin] at hbegun
      simp only [ProcessStage.step?, hbegin] at hstep
      cases hbegun
      cases hstep
      exact of_worksTo ⟨_, _, rfl, rfl, .refl _⟩ (.refl h)
  | attempting count a rest =>
    obtain ⟨⟨p, h₁, n₁⟩, hattempt, heq⟩ := Option.map_eq_some_iff.mp hstep
    obtain ⟨hserves, hworks, -, -⟩ := Attempt.serves_step? hattempt
    cases p <;> (cases heq; exact of_worksTo hworks hserves)

end Node.Step

theorem Worker.foldl_abort (n : Node) (is : List Nat) :
    ∃ stats, is.foldl Worker.abort n =
        { n with workers := is.foldl (fun ws i => ws.set i .stopped) n.workers, stats } ∧
      stats.skippedClaimCycles = n.stats.skippedClaimCycles := by
  induction is generalizing n with
  | nil => exact ⟨n.stats, rfl, rfl⟩
  | cons i rest ih =>
    have habort : ∃ stats, Worker.abort n i = { n with workers := n.workers.set i .stopped, stats } ∧
        stats.skippedClaimCycles = n.stats.skippedClaimCycles := by
      unfold Worker.abort
      split <;> exact ⟨_, rfl, rfl⟩
    obtain ⟨stats, habort, hskips⟩ := habort
    obtain ⟨stats', hrest, hskips'⟩ := ih (Worker.abort n i)
    rw [habort] at hrest hskips'
    refine ⟨stats', ?_, hskips'.trans hskips⟩
    rw [List.foldl_cons, habort]
    exact hrest

/-- Workers that are made to stop have all stopped. -/
theorem Node.abortWorkers_eq (n : Node) :
    ∃ stats, n.abortWorkers = { n with workers := n.workers.map fun _ => .stopped, stats } ∧
      stats.skippedClaimCycles = n.stats.skippedClaimCycles := by
  obtain ⟨stats, habort, hskips⟩ := Worker.foldl_abort n (List.range n.workers.length)
  rw [foldl_set_range] at habort
  exact ⟨stats, habort, hskips⟩

namespace Node.Step

theorem of_shutdown {stage : ShutdownStage} {next : ShutdownStage ⊕ CallResult}
    (hstep : stage.step? h n = some (next, h', n')) : n.Step h h' n' := by
  cases stage with
  | joining deadline =>
    simp only [ShutdownStage.step?] at hstep
    split at hstep
    · cases hstep
      exact of_worksTo (.refl n) (.refl h)
    · rename_i hrunning
      split at hstep
      · cases hstep
        exact .stopped (Bool.not_eq_true _ ▸ hrunning) (.inr rfl)
      · cases hstep
  | finishing deadline timedOut =>
    simp only [ShutdownStage.step?] at hstep
    split at hstep
    · cases hstep
      exact of_worksTo (.count (.refl n) fun _ => rfl) (.refl h)
    · split at hstep
      · obtain ⟨stats, habort, hskips⟩ := n.abortWorkers_eq
        rw [habort] at hstep
        cases hstep
        exact .cut hskips
      · cases hstep
  | releasing again timedOut =>
    simp only [ShutdownStage.step?] at hstep
    rcases hrelease : h.store.release n.id h.time with ⟨e | es, s⟩
    · rw [hrelease] at hstep
      simp only at hstep
      split at hstep
      · cases hstep
        exact of_worksTo (.refl n) (.of_release hrelease)
      · cases hstep
        exact of_worksTo (.refl n) (.of_release hrelease)
    · rw [hrelease] at hstep
      cases hstep
      exact of_worksTo (.refl n) (.of_release hrelease)

theorem of_cancel (h : Hub) (n : Node) : n.Step h h n.cancel :=
  .aside (.refl h) rfl (fun _ => rfl) (.refl _)

end Node.Step

theorem Node.begins_start (h : Hub) (n : Node) : n.Begins h (n.start h).2.1 (n.start h).2.2 := by
  unfold start
  split
  · exact .refused
  · rename_i hstarted
    have hstarted : n.isStarted = false := Bool.not_eq_true _ ▸ hstarted
    split
    · exact .declared hstarted
    · split
      · exact .refused
      · split
        · exact .refused
        · by_cases hmode : n.config.mode = .stickyEvents
          · simp only [hmode, ↓reduceIte]
            exact .subscribed hstarted hmode rfl
          · simp only [hmode, ↓reduceIte]
            exact .started hstarted hmode rfl

namespace Node

theorem isBackgroundOver_iff :
    n.isBackgroundOver = true ↔ (n.claimLoop = none ∨ n.claimLoop = some .stopped) ∧
      (n.reaper = none ∨ n.reaper = some .stopped) := by
  rw [isBackgroundOver, isQueueClosed, Bool.and_eq_true]
  refine and_congr ?_ ?_
  · rcases n.claimLoop with _ | c
    · simp
    · cases c <;> simp
  · rcases n.reaper with _ | c
    · simp
    · cases c <;> simp

theorem areWorkersOver_iff : n.areWorkersOver = true ↔ ∀ w ∈ n.workers, w = .stopped := by
  rw [areWorkersOver, List.all_eq_true]
  refine forall₂_congr fun w _ => ?_
  cases w <;> simp

namespace Step

theorem id_eq (hstep : n.Step h h' n') : n'.id = n.id := by
  cases hstep <;> rfl

theorem config_eq (hstep : n.Step h h' n') : n'.config = n.config := by
  cases hstep <;> rfl

/-- Claim loop and reaper do not go on once they have stopped. -/
theorem isBackgroundOver (hstep : n.Step h h' n') (hover : n.isBackgroundOver = true) :
    n'.isBackgroundOver = true := by
  obtain ⟨hloop, hreaper⟩ := isBackgroundOver_iff.mp hover
  have hrunning {c : ClaimLoop} (loop : n.claimLoop = some c) (hc : c ≠ .stopped) :
      n'.isBackgroundOver = true := by
    rcases hloop with hloop | hloop
    · exact nomatch loop.symm.trans hloop
    · exact absurd (Option.some.inj (loop.symm.trans hloop)) hc
  cases hstep with
  | aside serves skips stays => exact isBackgroundOver_iff.mpr ⟨hloop, (stays hreaper).symm ▸ hreaper⟩
  | taken | worked | finished | retired | cut => exact hover
  | stopped running ends => exact absurd (hover.symm.trans running) (by decide)
  | checked loop | skipped loop | claimed loop | missed loop | sent loop | yielded loop | resumed loop
  | parked loop | woken loop | heard loop | drained loop | deafened loop => exact hrunning loop nofun

/-- Workers do not go on once they have stopped. -/
theorem areWorkersOver (hstep : n.Step h h' n') (hover : n.areWorkersOver = true) :
    n'.areWorkersOver = true := by
  have hstopped := areWorkersOver_iff.mp hover
  have hrunning {i : Nat} {w : Worker} (hi : n.workers[i]? = some w) (hw : w ≠ .stopped) :
      n'.areWorkersOver = true :=
    absurd (hstopped w (List.mem_of_getElem? hi)) hw
  cases hstep with
  | taken idle => exact hrunning idle nofun
  | worked busy | finished busy => exact hrunning busy nofun
  | retired idle => exact hrunning idle nofun
  | cut skips =>
    refine areWorkersOver_iff.mpr fun w hw => ?_
    obtain ⟨-, -, rfl⟩ := List.mem_map.mp hw
    rfl
  | _ => exact hover

end Step

end Node

end DurableQueue
