import DurableQueue.Proofs.Dispatch.Pipeline

/-!
The queue of a dispatcher stays within its bounds and loses nothing.

A cycle claims only when there is room for a whole batch, and nobody but the claim loop fills the
queue, so there is still room when the claims are sent (`Node.IsBounded`). Each step moves claims
from one place to the next (`Node.Passes`), so that what the log tells of is where it says
(`Node.IsAccounted`). `Bus.claims_handed_on` puts both together.
-/

namespace DurableQueue

open PipelineEvent

namespace Node

variable {n n' : Node} {h h' : Hub} {log events : List PipelineEvent}

/-- The queue has room for all that the claim loop may put into it. A dispatcher that was not
started has no tasks. -/
structure IsBounded (n : Node) : Prop where
  unstarted : n.isStarted = false →
    n.queue = [] ∧ n.workers = [] ∧ n.claimLoop = none ∧ n.reaper = none
  pool : n.workers.length ≤ n.config.maxDispatchThreads
  room : n.queue.length + n.hands.length ≤ n.config.eventQueueCapacity
  /-- Once the capacity was looked at, a whole batch has room. -/
  reserved : n.claimLoop = some .claiming →
    n.queue.length + n.config.maxEntriesClaimed ≤ n.config.eventQueueCapacity

namespace IsBounded

theorem unstartedNode (id : NodeId) (config : DispatchConfig) (registry : Registry)
    (clock : NodeClock) (isAttached : Bool) :
    (Node.unstarted id config registry clock isAttached).IsBounded where
  unstarted _ := ⟨rfl, rfl, rfl, rfl⟩
  pool := Nat.zero_le _
  room := Nat.zero_le _
  reserved hloop := by cases hloop

theorem isStarted_of_worker (hn : n.IsBounded) {i : Nat} {w : Worker} (hi : n.workers[i]? = some w) :
    n.isStarted ≠ false := by
  intro hstarted
  rw [(hn.unstarted hstarted).2.1] at hi
  cases hi

theorem isStarted_of_loop (hn : n.IsBounded) {c : ClaimLoop} (hloop : n.claimLoop = some c) :
    n.isStarted ≠ false := by
  intro hstarted
  rw [(hn.unstarted hstarted).2.2.1] at hloop
  cases hloop

/-- A worker takes a step, and at most takes the first entry of the queue. -/
theorem worker (hn : n.IsBounded) {i : Nat} {w w' : Worker} (hi : n.workers[i]? = some w)
    (hworkers : n'.workers = n.workers.set i w') (hqueue : n'.queue.length ≤ n.queue.length)
    (hloop : n'.claimLoop = n.claimLoop) (hconfig : n'.config = n.config)
    (hstarted : n'.isStarted = n.isStarted) : n'.IsBounded where
  unstarted hs := absurd (hstarted.symm.trans hs) (hn.isStarted_of_worker hi)
  pool := by
    rw [hworkers, List.length_set, hconfig]
    exact hn.pool
  room := by
    have hroom := hn.room
    rw [hconfig, hands, hloop]
    exact Nat.le_trans (Nat.add_le_add_right hqueue _) hroom
  reserved hclaiming := by
    have hreserved := hn.reserved (hloop.symm.trans hclaiming)
    rw [hconfig]
    omega

/-- The claim loop takes a step after which it does not claim. -/
theorem loop (hn : n.IsBounded) {c c' : ClaimLoop} (hloop : n.claimLoop = some c)
    (hloop' : n'.claimLoop = some c') (hclaiming : c' ≠ .claiming)
    (hroom : n'.queue.length + n'.hands.length ≤ n.config.eventQueueCapacity)
    (hworkers : n'.workers = n.workers) (hconfig : n'.config = n.config)
    (hstarted : n'.isStarted = n.isStarted) : n'.IsBounded where
  unstarted hs := absurd (hstarted.symm.trans hs) (hn.isStarted_of_loop hloop)
  pool := by
    rw [hworkers, hconfig]
    exact hn.pool
  room := by
    rw [hconfig]
    exact hroom
  reserved h := absurd (Option.some.inj (hloop'.symm.trans h)) hclaiming

/-- The same, when it has nothing in its hands afterwards. -/
theorem idle_loop (hn : n.IsBounded) {c c' : ClaimLoop} (hloop : n.claimLoop = some c)
    (hloop' : n'.claimLoop = some c') (hclaiming : c' ≠ .claiming) (hhands : n'.hands = [])
    (hqueue : n'.queue = n.queue) (hworkers : n'.workers = n.workers) (hconfig : n'.config = n.config)
    (hstarted : n'.isStarted = n.isStarted) : n'.IsBounded := by
  refine hn.loop hloop hloop' hclaiming ?_ hworkers hconfig hstarted
  rw [hhands, hqueue]
  exact Nat.le_trans (Nat.le_add_right _ _) hn.room

theorem step (hn : n.IsBounded) (hstep : n.Step h h' n') : n'.IsBounded := by
  have hroom := hn.room
  cases hstep with
  | aside serves skips stays =>
    refine ⟨fun hs => ?_, hn.pool, hn.room, hn.reserved⟩
    obtain ⟨hqueue, hworkers, hloop, hreaper⟩ := hn.unstarted hs
    exact ⟨hqueue, hworkers, hloop, (stays (.inl hreaper)).trans hreaper⟩
  | taken idle queue skips =>
    refine hn.worker idle rfl ?_ rfl rfl rfl
    rw [queue]
    exact Nat.le_succ _
  | worked busy goes serves skips => exact hn.worker busy rfl (Nat.le_refl _) rfl rfl rfl
  | finished busy free serves skips => exact hn.worker busy rfl (Nat.le_refl _) rfl rfl rfl
  | retired idle => exact hn.worker idle rfl (Nat.le_refl _) rfl rfl rfl
  | cut skips =>
    refine ⟨fun hs => ?_, ?_, hn.room, hn.reserved⟩
    · obtain ⟨hqueue, hworkers, hloop, hreaper⟩ := hn.unstarted hs
      exact ⟨hqueue, List.map_eq_nil_iff.mpr hworkers, hloop, hreaper⟩
    · rw [List.length_map]
      exact hn.pool
  | checked loop room =>
    refine ⟨fun hs => absurd hs (hn.isStarted_of_loop loop), hn.pool, ?_, fun _ => ?_⟩
    · exact Nat.le_trans (Nat.le_add_right _ _) hroom
    · rw [Node.room] at room
      have hqueue : n.queue.length ≤ n.config.eventQueueCapacity :=
        Nat.le_trans (Nat.le_add_right _ _) hroom
      simp only
      omega
  | claimed loop claim skips =>
    refine hn.loop loop rfl nofun ?_ rfl rfl rfl
    exact Nat.le_trans (Nat.add_le_add_left (ClaimManager.length_le_of_claim claim) _)
      (hn.reserved loop)
  | @sent e rest full loop room =>
    refine hn.loop loop rfl nofun ?_ rfl rfl rfl
    have hhands : n.hands = e :: rest := by rw [hands, loop]
    rw [hhands, List.length_cons] at hroom
    simp only [hands, List.length_append, List.length_singleton]
    omega
  | skipped loop | missed loop | yielded loop | resumed loop | parked loop | woken loop | heard loop
  | deafened loop => exact hn.idle_loop loop rfl nofun rfl rfl rfl rfl rfl
  | @drained own heard deadline id loop subscription hears =>
    cases heard with
    | true => exact hn.idle_loop loop rfl nofun rfl rfl rfl rfl rfl
    | false => exact hn.idle_loop loop rfl nofun rfl rfl rfl rfl rfl
  | stopped running ends =>
    refine ⟨fun hs => ?_, hn.pool, Nat.le_trans (Nat.le_add_right _ _) hroom, nofun⟩
    obtain ⟨-, -, hloop, hreaper⟩ := hn.unstarted hs
    rw [isBackgroundOver, isQueueClosed, hloop, hreaper] at running
    cases running

theorem begins (hn : n.IsBounded) (hbegins : n.Begins h h' n') : n'.IsBounded := by
  have hroom : n.queue.length ≤ n.config.eventQueueCapacity :=
    Nat.le_trans (Nat.le_add_right _ _) hn.room
  cases hbegins with
  | refused => exact hn
  | declared unstarted => exact ⟨nofun, hn.pool, hn.room, hn.reserved⟩
  | started unstarted mode skips => exact ⟨nofun, Nat.le_of_eq List.length_replicate, hroom, nofun⟩
  | subscribed unstarted mode skips => exact ⟨nofun, Nat.le_of_eq List.length_replicate, hroom, nofun⟩

end IsBounded

/-- What a step moves, and tells. Claims come into the hands of the claim loop, go through the queue
to the workers and end there, or are dropped from the hands. -/
structure Passes (n n' : Node) (events : List PipelineEvent) : Prop where
  order : takenIn events ++ (n'.queue ++ n'.hands) ++ droppedIn events =
    n.queue ++ n.hands ++ claimedIn events
  running : n.claimLoop ≠ some .stopped ∨ claimedIn events = [] ∧ droppedIn events = []
  kept : n'.claimLoop ≠ some .stopped → n.claimLoop ≠ some .stopped ∧ droppedIn events = []
  handed (i : Nat) : n.atWorkBy i ++ takenBy i events = endedBy i events ++ n'.atWorkBy i
  skips : n'.stats.skippedClaimCycles = n.stats.skippedClaimCycles + events.countP isSkipped

namespace Passes

/-- Neither the workers nor the claim loop take part. -/
theorem aside (hqueue : n'.queue = n.queue) (hworkers : n'.workers = n.workers)
    (hloop : n'.claimLoop = n.claimLoop)
    (hskips : n'.stats.skippedClaimCycles = n.stats.skippedClaimCycles) :
    n.Passes n' (n.tells n') := by
  rw [tells_of_aside hworkers hloop]
  refine ⟨?_, .inr ⟨rfl, rfl⟩, fun h => ⟨hloop ▸ h, rfl⟩, ?_, hskips⟩
  · rw [hands, hqueue, hloop]
    rfl
  · intro i
    rw [atWorkBy, atWorkBy, hworkers]
    exact List.append_nil _

/-- A worker takes a step. -/
theorem worker {i : Nat} {w : Worker} (w' : Worker) (events : List PipelineEvent)
    (hi : n.workers[i]? = some w) (hworkers : n'.workers = n.workers.set i w')
    (hloop : n'.claimLoop = n.claimLoop) (htells : Worker.tells i w w' = events)
    (htaken : n.queue = takenIn events ++ n'.queue)
    (hclaimed : claimedIn events = []) (hdropped : droppedIn events = [])
    (hentry : w.entry?.toList ++ takenBy i events = endedBy i events ++ w'.entry?.toList)
    (hskips : n'.stats.skippedClaimCycles = n.stats.skippedClaimCycles + events.countP isSkipped) :
    n.Passes n' (n.tells n') := by
  rw [tells_of_worker hi hworkers hloop, htells]
  refine ⟨?_, .inr ⟨hclaimed, hdropped⟩, fun h => ⟨hloop ▸ h, hdropped⟩, ?_, hskips⟩
  · rw [hclaimed, hdropped, htaken, hands, hands, hloop]
    simp only [List.append_nil, List.append_assoc]
  · intro j
    rw [atWorkBy, atWorkBy, hworkers, List.getElem?_set']
    by_cases hij : i = j
    · subst hij
      rw [if_pos rfl, hi]
      exact hentry
    · obtain ⟨htook, hended⟩ := Worker.tells_others hij w w'
      rw [← htells, htook, hended, if_neg hij, List.append_nil, List.nil_append]

/-- The claim loop takes a step. -/
theorem loop (events : List PipelineEvent) (hworkers : n'.workers = n.workers)
    (htells : ClaimLoop.tells n.claimLoop n'.claimLoop = events)
    (horder : n'.queue ++ n'.hands ++ droppedIn events = n.queue ++ n.hands ++ claimedIn events)
    (hrunning : n.claimLoop ≠ some .stopped ∨ claimedIn events = [] ∧ droppedIn events = [])
    (hkept : n'.claimLoop ≠ some .stopped → n.claimLoop ≠ some .stopped ∧ droppedIn events = [])
    (hskips : n'.stats.skippedClaimCycles = n.stats.skippedClaimCycles + events.countP isSkipped) :
    n.Passes n' (n.tells n') := by
  obtain ⟨htaken, hworks⟩ :
      takenIn events = [] ∧ ∀ i, takenBy i events = [] ∧ endedBy i events = [] := by
    rw [← htells]
    unfold ClaimLoop.tells
    split <;> exact ⟨rfl, fun i => ⟨rfl, rfl⟩⟩
  rw [tells_of_claimLoop hworkers, htells]
  refine ⟨?_, hrunning, hkept, ?_, hskips⟩
  · rw [htaken, List.nil_append, horder]
  · intro i
    rw [(hworks i).1, (hworks i).2, atWorkBy, atWorkBy, hworkers, List.append_nil, List.nil_append]

/-- A running claim loop goes on, and neither claims nor sends. -/
theorem turning {c c' : ClaimLoop} (hloop : n.claimLoop = some c) (hloop' : n'.claimLoop = some c')
    (hrunning : c ≠ .stopped) (htells : ClaimLoop.tells (some c) (some c') = events)
    (hqueue : n'.queue = n.queue) (hhands : n.hands = []) (hhands' : n'.hands = [])
    (hworkers : n'.workers = n.workers) (hclaimed : claimedIn events = [])
    (hdropped : droppedIn events = [])
    (hskips : n'.stats.skippedClaimCycles = n.stats.skippedClaimCycles + events.countP isSkipped) :
    n.Passes n' (n.tells n') := by
  have hgoes : n.claimLoop ≠ some .stopped := fun h => hrunning (Option.some.inj (hloop.symm.trans h))
  refine loop events hworkers (by rw [hloop, hloop', htells]) ?_ (.inl hgoes)
    (fun _ => ⟨hgoes, hdropped⟩) hskips
  rw [hqueue, hhands, hhands', hclaimed, hdropped]

/-- All workers are made to stop. -/
theorem cut (hqueue : n'.queue = n.queue) (hworkers : n'.workers = n.workers.map fun _ => .stopped)
    (hloop : n'.claimLoop = n.claimLoop)
    (hskips : n'.stats.skippedClaimCycles = n.stats.skippedClaimCycles) :
    n.Passes n' (n.tells n') := by
  have htells : n.tells n' = Worker.tellAll 0 n.workers (n.workers.map fun _ => .stopped) := by
    rw [tells, hworkers, hloop, ClaimLoop.tells_self, List.nil_append]
  have hends {x : PipelineEvent} (hx : x ∈ n.tells n') : ∃ j e, x = .ended j e :=
    Worker.eq_ended_of_mem_tellAll_stopped (htells ▸ hx)
  have hnothing {α : Type} {f : PipelineEvent → List α} (hf : ∀ i e, f (.ended i e) = []) :
      (n.tells n').flatMap f = [] := by
    refine List.flatMap_eq_nil_iff.mpr fun x hx => ?_
    obtain ⟨i, e, rfl⟩ := hends hx
    exact hf i e
  have hclaimed : claimedIn (n.tells n') = [] := hnothing fun _ _ => rfl
  have hdropped : droppedIn (n.tells n') = [] := hnothing fun _ _ => rfl
  have htaken : takenIn (n.tells n') = [] := hnothing fun _ _ => rfl
  refine ⟨?_, .inr ⟨hclaimed, hdropped⟩, fun h => ⟨hloop ▸ h, hdropped⟩, fun i => ?_, ?_⟩
  · rw [hclaimed, hdropped, htaken, hands, hands, hqueue, hloop]
    rfl
  · have htook : takenBy i (n.tells n') = [] := hnothing fun _ _ => rfl
    have hfree : n'.atWorkBy i = [] := by
      rw [atWorkBy, hworkers, List.getElem?_map]
      cases n.workers[i]? <;> rfl
    rw [htook, hfree, htells, Worker.endedBy_tellAll_stopped, if_pos (Nat.zero_le i), Nat.sub_zero]
    rfl
  · rw [hskips, List.countP_eq_zero.mpr]
    · rfl
    · intro x hx
      obtain ⟨i, e, rfl⟩ := hends hx
      exact Bool.false_ne_true

/-- The claim loop ends, and drops what it has in its hands. -/
theorem stopped (hqueue : n'.queue = n.queue) (hworkers : n'.workers = n.workers)
    (hloop : n'.claimLoop = some .stopped)
    (hskips : n'.stats.skippedClaimCycles = n.stats.skippedClaimCycles) :
    n.Passes n' (n.tells n') := by
  have hhands : n'.hands = [] := by rw [hands, hloop]
  have hquiet (hnothing : ClaimLoop.tells n.claimLoop n'.claimLoop = []) (hempty : n.hands = []) :
      n.Passes n' (n.tells n') := by
    refine .loop [] hworkers hnothing ?_ (.inr ⟨rfl, rfl⟩) (fun h => absurd hloop h) hskips
    rw [hqueue, hhands, hempty]
    rfl
  cases hc : n.claimLoop with
  | none => exact hquiet (by rw [hc, hloop]; rfl) (by rw [hands, hc])
  | some c =>
    cases c with
    | sending rest full =>
      refine .loop [.dropped rest] hworkers (by rw [hc, hloop]; rfl) ?_ (.inl ?_)
        (fun h => absurd hloop h) hskips
      · rw [hqueue, hhands, hands, hc]
        simp only [claimedIn, droppedIn, List.flatMap_cons, List.flatMap_nil, List.append_nil]
      · rw [hc]
        nofun
    | _ => exact hquiet (by rw [hc, hloop]; rfl) (by rw [hands, hc])

/-- The tasks begin. -/
theorem started (hrests : n.queue = [] ∧ n.workers = [] ∧ n.claimLoop = none ∧ n.reaper = none)
    (hqueue : n'.queue = n.queue)
    (hworkers : n'.workers = List.replicate n.config.maxDispatchThreads .idle)
    (hloop : n'.claimLoop = some .checking)
    (hskips : n'.stats.skippedClaimCycles = n.stats.skippedClaimCycles) :
    n.Passes n' (n.tells n') := by
  obtain ⟨-, hnone, hnoLoop, -⟩ := hrests
  have htells : n.tells n' = [] := by
    rw [tells, hloop, hnoLoop, hnone]
    rfl
  have hgoes : n.claimLoop ≠ some .stopped := by simp [hnoLoop]
  rw [htells]
  refine ⟨?_, .inl hgoes, fun _ => ⟨hgoes, rfl⟩, ?_, hskips⟩
  · rw [hands, hands, hloop, hnoLoop, hqueue]
    rfl
  · intro i
    have hfree : n'.atWorkBy i = [] := by
      rw [atWorkBy, hworkers, List.getElem?_replicate]
      split <;> rfl
    rw [hfree, atWorkBy, hnone]
    rfl

theorem of_step (hstep : n.Step h h' n') : n.Passes n' (n.tells n') := by
  cases hstep with
  | aside serves skips stays => exact .aside rfl rfl rfl skips
  | @taken i e rest stats idle queue skips =>
    have hentry := Attempt.entry_begin_ n e
    refine .worker (.busy (Attempt.begin_ n e).1) [.taken i e] idle rfl rfl ?_ queue rfl rfl ?_ skips
    · exact congrArg (fun e => [PipelineEvent.taken i e]) hentry
    · simp [takenBy, endedBy, Worker.entry?, hentry]
  | @worked _ i a a' registry stats busy goes serves skips =>
    refine .worker (.busy a') [] busy rfl rfl rfl rfl rfl rfl ?_ skips
    simp [takenBy, endedBy, Worker.entry?, goes.entry]
  | @finished _ i a w registry stats busy free serves skips =>
    refine .worker w [.ended i a.entry] busy rfl rfl ?_ rfl rfl rfl ?_ skips
    · rcases free with ⟨rfl, -⟩ | rfl <;> rfl
    · rcases free with ⟨rfl, -⟩ | rfl <;> simp [takenBy, endedBy, Worker.entry?]
  | @retired i idle => exact .worker .stopped [] idle rfl rfl rfl rfl rfl rfl rfl rfl
  | cut skips => exact .cut rfl rfl rfl skips
  | checked loop | skipped loop | yielded loop | resumed loop | parked loop | woken loop | heard loop
  | deafened loop =>
    exact .turning loop rfl (by simp) rfl rfl (by rw [hands, loop]) rfl rfl rfl rfl rfl
  | claimed loop claim skips =>
    have hgoes : n.claimLoop ≠ some .stopped := by simp [loop]
    refine .loop [.claimed _] rfl (by rw [loop]; rfl) ?_ (.inl hgoes) (fun _ => ⟨hgoes, rfl⟩) skips
    simp only [hands, loop, claimedIn, droppedIn, List.flatMap_cons, List.flatMap_nil,
      List.append_nil]
  | missed loop claim skips =>
    exact .turning loop rfl (by simp) rfl rfl (by rw [hands, loop]) rfl rfl rfl rfl skips
  | @sent e rest full loop room =>
    have hgoes : n.claimLoop ≠ some .stopped := by simp [loop]
    refine .loop [] rfl (by rw [loop]; rfl) ?_ (.inl hgoes) (fun _ => ⟨hgoes, rfl⟩) rfl
    simp only [hands, loop, claimedIn, droppedIn, List.flatMap_nil, List.append_nil,
      List.append_assoc, List.singleton_append]
  | @drained own heard deadline id loop subscription hears =>
    cases heard with
    | true => exact .turning loop rfl (by simp) rfl rfl (by rw [hands, loop]) rfl rfl rfl rfl rfl
    | false => exact .turning loop rfl (by simp) rfl rfl (by rw [hands, loop]) rfl rfl rfl rfl rfl
  | stopped running ends => exact .stopped rfl rfl rfl rfl

theorem of_begins (hn : n.IsBounded) (hbegins : n.Begins h h' n') : n.Passes n' (n.tells n') := by
  cases hbegins with
  | refused => exact .aside rfl rfl rfl rfl
  | declared unstarted => exact .aside rfl rfl rfl rfl
  | started unstarted mode skips => exact .started (hn.unstarted unstarted) rfl rfl rfl skips
  | subscribed unstarted mode skips => exact .started (hn.unstarted unstarted) rfl rfl rfl skips

end Passes

/-- Each claim that the log tells of is in one place. -/
structure IsAccounted (n : Node) (log : List PipelineEvent) : Prop where
  order : claimedIn log = takenIn log ++ (n.queue ++ n.hands) ++ droppedIn log
  kept : n.claimLoop ≠ some .stopped → droppedIn log = []
  handed (i : Nat) : takenBy i log = endedBy i log ++ n.atWorkBy i
  skips : n.stats.skippedClaimCycles = log.countP isSkipped

namespace IsAccounted

theorem unstartedNode (id : NodeId) (config : DispatchConfig) (registry : Registry)
    (clock : NodeClock) (isAttached : Bool) :
    (Node.unstarted id config registry clock isAttached).IsAccounted [] :=
  ⟨rfl, fun _ => rfl, fun _ => rfl, rfl⟩

theorem passes (hn : n.IsAccounted log) (hpasses : n.Passes n' events) :
    n'.IsAccounted (log ++ events) where
  order := by
    rw [claimedIn_append, takenIn_append, droppedIn_append, hn.order]
    rcases hpasses.running with hrunning | ⟨hclaimed, hdropped⟩
    · calc takenIn log ++ (n.queue ++ n.hands) ++ droppedIn log ++ claimedIn events
          = takenIn log ++ (n.queue ++ n.hands ++ claimedIn events) := by
            rw [hn.kept hrunning, List.append_nil, List.append_assoc]
        _ = takenIn log ++ (takenIn events ++ (n'.queue ++ n'.hands) ++ droppedIn events) := by
            rw [hpasses.order]
        _ = takenIn log ++ takenIn events ++ (n'.queue ++ n'.hands) ++
              (droppedIn log ++ droppedIn events) := by
            rw [hn.kept hrunning]
            simp only [List.append_assoc, List.nil_append]
    · have horder := hpasses.order
      rw [hclaimed, hdropped, List.append_nil, List.append_nil] at horder
      rw [hclaimed, hdropped, ← horder]
      simp only [List.append_assoc, List.append_nil]
  kept hgoes := by
    obtain ⟨hrunning, hdropped⟩ := hpasses.kept hgoes
    rw [droppedIn_append, hn.kept hrunning, hdropped]
    rfl
  handed i := by
    rw [takenBy_append, endedBy_append, hn.handed, List.append_assoc, List.append_assoc,
      hpasses.handed]
  skips := by rw [List.countP_append, hpasses.skips, hn.skips]

end IsAccounted

end Node

namespace Bus

/-- Whatever happens, a dispatcher stays within its bounds and its claims are where the log says. -/
theorem isBounded_run (start : Timestamp) (actions : List BusAction) {k : Nat} {n : Node}
    (hn : ((startingAt start).run actions).nodes[k]? = some n) :
    n.IsBounded ∧ n.IsAccounted ((startingAt start).flow k actions) := by
  refine (flow_induction (p := fun _ n log => n.IsBounded ∧ n.IsAccounted log) ?_ ?_ actions).2 n hn
  · intro actions id config registry clock isAttached _
    exact ⟨.unstartedNode .., .unstartedNode ..⟩
  · intro actions x n n' log _ _ hstep ⟨hbounded, haccounted⟩
    cases hstep with
    | step step => exact ⟨hbounded.step step, haccounted.passes (.of_step step)⟩
    | begins asked begins =>
      exact ⟨hbounded.begins begins, haccounted.passes (.of_begins hbounded begins)⟩
    | elsewhere elsewhere => exact ⟨hbounded, haccounted.passes (.aside rfl rfl rfl rfl)⟩

end Bus

end DurableQueue
