import DurableQueue.Proofs.Dispatch.Accounting
import DurableQueue.Proofs.Dispatch.BatchOrder
import DurableQueue.Proofs.Dispatch.Sparing

/-!
Attempts that lose their claim.

On a store that is spared failures every attempt takes its steps until it is booked (`Attempt.Advance`). It is
booked as a lost race when its claim was taken back, handed back or resolved by somebody else. But an entry that
was purged after that is not found any more, and the attempt on it is booked as a failure of the store
(`Scene.purged_race_misbooked`).
-/

namespace DurableQueue

/-- The attempt at which a worker or a call is, also when its record is stored, and its dispatcher. -/
def BusTask.attempting? (b : Bus) : BusTask → Option (Nat × Attempt)
  | .worker k i =>
    match b.nodes[k]?.bind (·.workers[i]?) with
    | some (.busy a) => some (k, a)
    | _ => none
  | .call i =>
    match b.calls[i]? with
    | some (.process k (.attempting _ a _)) => some (k, a)
    | _ => none
  | _ => none

/-- How many attempts a dispatcher booked so. -/
def Bus.booked (b : Bus) (k : Nat) (v : Verdict) : Nat := (tallyAt (b.nodes.map (·.stats)) k).counter v

/-- The attempt that goes on. -/
def Progress.going? : Progress → Option Attempt
  | .going a => some a
  | _ => none

/-- What a step of a task makes of its attempt for a dispatcher, on a store that is spared failures. -/
inductive Attempt.Advance (t : BusTask) (k : Nat) (n : Node) (draw : Draw) (b b' : Bus) : Attempt → Prop where
  /-- The handler sleeps. -/
  | asleep {e : Entry} {wakeAt : Nat} {effects : List Effect} {result : HandlerResult}
    (early : b.hub.now < wakeAt) (same : b' = b) : Advance t k n draw b b' (.sleeping e wakeAt effects result)
  /-- It comes nearer to its update. -/
  | nearer {a a' : Attempt} (claim : a'.entry = a.entry) (unanswered : ¬ a'.IsBooking)
    (lighter : a'.weight < a.weight) (goes : t.attempting? b' = some (k, a'))
    (counters : ∀ j v, b'.booked j v = b.booked j v) : Advance t k n draw b b' a
  | answered {e next : Entry} {outcome : DispatchOutcome} {answer : Except StoreError Unit} {v : Verdict}
    (answers : b.hub.store.Answers e next b.hub.time answer v b'.hub.store)
    (goes : t.attempting? b' = some (k, .booking e v)) (counters : ∀ j v, b'.booked j v = b.booked j v) :
    Advance t k n draw b b' (.storing e next outcome)
  /-- It ends, and one counter grows. -/
  | booked {e : Entry} {v : Verdict} (due : v.IsDue e b.hub.store) (ends : t.attempting? b' = none)
    (counters : ∀ j v', b'.booked j v' = b.booked j v' + if j = k ∧ v' = v then 1 else 0) :
    Advance t k n draw b b' (.booking e v)
  /-- The drawn delay is beyond every span. -/
  | brokeDown {e : Entry} {outcome : DispatchOutcome}
    (unbuilt : outcome.nextEntry n.config.retryPolicy draw e (n.time b.hub) = none)
    (ends : t.attempting? b' = none) (counters : ∀ j v, b'.booked j v = b.booked j v) :
    Advance t k n draw b b' (.judged e outcome)

namespace Attempt

variable {h h' : Hub} {n n' : Node} {draw : Draw} {a a' : Attempt}

theorem weight_of_going (hstep : a.step? draw h n = some (.going a', h', n')) : a'.weight < a.weight := by
  have hless := weight_step? hstep ⟨n.registry, n.config.retryPolicy, h.time, h.time⟩
  rwa [Progress.work, Work.total_cons] at hless

/-- Who leaves is only no longer in flight. -/
theorem counter_leave (n : Node) (v : Verdict) : (leave n).stats.counter v = n.stats.counter v := by
  cases v <;> rfl

end Attempt

theorem Verdict.IsDue.ne_uncounted {e : Entry} {s : Store} {v : Verdict} (h : v.IsDue e s) : v ≠ .uncounted := by
  rintro rfl
  cases h with
  | resolved state => cases state

namespace Bus

variable {b b' : Bus} {t : BusTask} {k : Nat} {a : Attempt} {n n' : Node}

theorem makes_of_attempting (hat : t.attempting? b = some (k, a)) : b.Makes a := by
  cases t with
  | worker j i =>
    simp only [BusTask.attempting?] at hat
    split at hat
    · rename_i a' hbusy
      cases hat
      obtain ⟨m, hm, hworker⟩ := Option.bind_eq_some_iff.mp hbusy
      exact .inl ⟨m, List.mem_of_getElem? hm, List.mem_of_getElem? hworker⟩
    · cases hat
  | call i =>
    simp only [BusTask.attempting?] at hat
    split at hat
    · rename_i j count a' rest hcall
      cases hat
      exact .inr ⟨_, List.mem_of_getElem? hcall, rfl⟩
    · cases hat
  | _ => cases hat

/-- What is booked after one dispatcher changed. -/
theorem booked_of_set (hk : b.nodes[k]? = some n) (hnodes : b'.nodes = b.nodes.set k n') (j : Nat)
    (v : Verdict) : b'.booked j v = if j = k then n'.stats.counter v else b.booked j v := by
  have hstats : (b.nodes.map (·.stats))[k]? = some n.stats := by rw [List.getElem?_map, hk, Option.map_some]
  rw [booked, hnodes, List.map_set]
  split
  · rename_i hj
    rw [hj, tallyAt_set_self hstats]
  · rename_i hj
    rw [tallyAt_set_ne (Ne.symm hj), booked]

theorem booked_of_node (hk : b.nodes[k]? = some n) (v : Verdict) : b.booked k v = n.stats.counter v := by
  have hstats : (b.nodes.map (·.stats))[k]? = some n.stats := by rw [List.getElem?_map, hk, Option.map_some]
  rw [booked, tallyAt_of_getElem? hstats]

/-- A task at an attempt takes the step of the attempt. -/
theorem act_attempting (hat : t.attempting? b = some (k, a)) (hn : b.nodes[k]? = some n) (draw : Nat → Draw) :
    (a.step? (draw k) b.hub n = none ∧ b.act (.task t draw) = b) ∨
      ∃ p h' n' m, a.step? (draw k) b.hub n = some (p, h', n') ∧ (b.act (.task t draw)).hub = h' ∧
        (b.act (.task t draw)).nodes = b.nodes.set k m ∧ m.stats = n'.stats ∧
        t.attempting? (b.act (.task t draw)) = p.going?.map fun a' => (k, a') := by
  cases t with
  | worker j i =>
    simp only [BusTask.attempting?] at hat
    split at hat
    · rename_i a' hbusy
      cases hat
      rw [hn, Option.bind_some] at hbusy
      have hact : b.act (.task (.worker k i) draw) = (b.step? draw (.worker k i)).getD b := rfl
      rw [hact]
      simp only [step?, onNode?, hn, Option.bind_eq_bind, Option.bind_some, Worker.step?, hbusy]
      cases hstep : a.step? (draw k) b.hub n with
      | none => exact .inl ⟨rfl, rfl⟩
      | some after =>
        obtain ⟨p, h', n'⟩ := after
        have hset (w : Worker) : ((b.nodes.set k (n'.withWorker i w))[k]?).bind (·.workers[i]?) = some w := by
          have hworkers : n'.workers[i]? = some (.busy a) := Attempt.workers_step? hstep ▸ hbusy
          rw [getElem?_set_of_some hn, Option.bind_some]
          exact getElem?_set_of_some hworkers w
        cases p with
        | going a' =>
          exact .inr ⟨_, h', n', n'.withWorker i (.busy a'), rfl, rfl, rfl, rfl,
            by simp [BusTask.attempting?, Progress.going?, hset]⟩
        | finished =>
          exact .inr ⟨_, h', n', n'.withWorker i .idle, rfl, rfl, rfl, rfl,
            by simp [BusTask.attempting?, Progress.going?, hset]⟩
        | brokeDown =>
          exact .inr ⟨_, h', n', n'.withWorker i .stopped, rfl, rfl, rfl, rfl,
            by simp [BusTask.attempting?, Progress.going?, hset]⟩
    · cases hat
  | call i =>
    simp only [BusTask.attempting?] at hat
    split at hat
    · rename_i j count a' rest hcall
      cases hat
      have hact : b.act (.task (.call i) draw) = (b.step? draw (.call i)).getD b := rfl
      rw [hact]
      simp only [step?, stepCall?, hcall, hn, Option.bind_eq_bind, Option.bind_some, ProcessStage.step?]
      cases hstep : a.step? (draw k) b.hub n with
      | none => exact .inl ⟨rfl, rfl⟩
      | some after =>
        obtain ⟨p, h', n'⟩ := after
        refine .inr ⟨p, h', n', n', rfl, ?_⟩
        have hset (c : Call) : (b.calls.set i c)[i]? = some c := getElem?_set_of_some hcall c
        cases p <;> simp [BusTask.attempting?, Progress.going?, hset]
    · cases hat
  | _ => cases hat

/-- On a store that is spared failures an attempt advances with every step of its task. -/
theorem IsSpared.advance (hb : b.IsSpared) (hs : b.hub.store.IsWellFormed)
    (hstored : ∃ d ∈ b.hub.store.stored, a.entry.id = d.id) (hat : t.attempting? b = some (k, a))
    (hn : b.nodes[k]? = some n) (draw : Nat → Draw) :
    a.Advance t k n (draw k) b (b.act (.task t draw)) := by
  have hspared := hb.attempts a (makes_of_attempting hat)
  obtain ⟨hwaits, hsame⟩ | ⟨p, h', n', m, hstep, hhub, hnodes, hstats, hgoes⟩ := act_attempting hat hn draw
  · cases a with
    | sleeping e wakeAt effects result =>
      simp only [Attempt.step?] at hwaits
      split at hwaits
      · cases hwaits
      · rename_i hlater
        exact .asleep (Nat.lt_of_not_le hlater) hsame
    | handling e effects result =>
      cases effects with
      | nil => cases hwaits
      | cons effect effects => cases effect <;> cases hwaits
    | judged e outcome =>
      simp only [Attempt.step?] at hwaits
      split at hwaits <;> cases hwaits
    | _ => cases hwaits
  · generalize b.act (.task t draw) = b' at hhub hnodes hgoes ⊢
    have hcounters : (∀ v, n'.stats.counter v = n.stats.counter v) → ∀ j v, b'.booked j v = b.booked j v := by
      intro hcounter j v
      rw [booked_of_set hn hnodes, hstats, hcounter]
      split
      · rename_i hj
        rw [hj, booked_of_node hn]
      · rfl
    have hnearer : ∀ a', p = .going a' → a'.entry = a.entry → a'.open? = some a' → n'.stats = n.stats →
        a.Advance t k n (draw k) b b' := by
      rintro a' rfl hentry hopen hkept
      refine .nearer hentry ?_ (Attempt.weight_of_going hstep) hgoes (hcounters fun v => by rw [hkept])
      rintro ⟨e, v, rfl⟩
      cases hopen
    cases a with
    | handling e effects result =>
      cases effects with
      | nil =>
        cases hstep
        exact hnearer _ rfl rfl rfl rfl
      | cons effect effects =>
        cases effect <;> cases hstep <;> exact hnearer _ rfl rfl rfl rfl
    | sleeping e wakeAt effects result =>
      simp only [Attempt.step?] at hstep
      split at hstep
      · cases hstep
        exact hnearer _ rfl rfl rfl rfl
      · cases hstep
    | judged e outcome =>
      simp only [Attempt.step?] at hstep
      split at hstep
      · cases hstep
        exact hnearer _ rfl rfl rfl rfl
      · rename_i hunbuilt
        cases hstep
        exact .brokeDown hunbuilt hgoes (hcounters (Attempt.counter_leave n))
    | storing e next outcome =>
      have hanswers := Store.answers_update hs hb.failuresLeft hspared hstored b.hub.time
      have hupdate : b.hub.breakdowns.update = 0 := congrArg Breakdowns.update hb.unbroken
      simp only [Attempt.step?, Attempt.store, hupdate] at hstep
      cases hstep
      have hafter : b'.hub.store = (b.hub.store.update e next b.hub.time).2 := congrArg Hub.store hhub
      rw [← hafter] at hanswers
      exact .answered hanswers hgoes (hcounters fun _ => rfl)
    | booking e v =>
      have hdue : v.IsDue e b.hub.store := hspared
      cases hstep
      refine .booked hdue hgoes fun j v' => ?_
      have hcount := n.stats.counter_book hdue.ne_uncounted v'
      rw [booked_of_set hn hnodes, hstats, Attempt.counter_leave, Node.count]
      split
      · rename_i hj
        rw [hj, booked_of_node hn, hcount]
        simp only [true_and, eq_comm]
      · rename_i hj
        rw [if_neg fun hboth => hj hboth.1, Nat.add_zero]

end Bus

namespace Scene

/-- Without failures of the store, a step of an attempt is one towards its update, the update, or the booking that
the update asks for. It is booked as a failure of the store only if its entry was purged. -/
theorem dispatches_booked (start : Timestamp) (actions : List BusAction) (hspares : ∀ x ∈ actions, x.SparesStore)
    {t : BusTask} {k : Nat} {a : Attempt} {n : Node}
    (hat : t.attempting? ((startingAt start).run actions).bus = some (k, a))
    (hn : ((startingAt start).run actions).bus.nodes[k]? = some n) (draw : Nat → Draw) :
    a.Advance t k n (draw k) ((startingAt start).run actions).bus
      (((startingAt start).run actions).bus.act (.task t draw)) := by
  have hstored := stored_of_makes (Bus.makes_of_attempting hat)
  exact (isSpared_run start actions hspares).advance (isKept_run start actions).wellFormed hstored hat hn draw

/-- A step of a call. -/
def stepOf (i : Nat) : BusAction := .task (.call i) fun _ s => some s

/-- A dispatcher has built the record of a job, when its claims are handed back. -/
def releasedRun : List BusAction :=
  [.add ⟨"a"⟩ .standard (.ofList [Bus.jobHandler]) .shared false, Bus.trueJob, .process 0, stepOf 0, stepOf 0,
    stepOf 0, stepOf 0, .operate (.release ⟨"a"⟩)]

theorem sparesStore_releasedRun : ∀ x ∈ releasedRun, x.SparesStore := by
  simp [releasedRun, stepOf, Bus.trueJob, BusAction.SparesStore, Bus.does_jobHandler, StoreOp.injects]

/-- The dispatcher comes too late and counts that. -/
theorem dispatches_booked_releasedRun :
    (∀ x ∈ releasedRun, x.SparesStore) ∧
    (∃ a n, (BusTask.call 0).attempting? ((startingAt .epoch).run releasedRun).bus = some (0, a) ∧
      a.Advance (.call 0) 0 n (fun s => some s) ((startingAt .epoch).run releasedRun).bus
        (((startingAt .epoch).run releasedRun).bus.act (stepOf 0))) ∧
    ((startingAt .epoch).run (releasedRun ++ [stepOf 0, stepOf 0])).bus.booked 0 .lostRace = 1 ∧
    ((startingAt .epoch).run (releasedRun ++ [stepOf 0, stepOf 0])).bus.booked 0 .storeError = 0 := by
  refine ⟨sparesStore_releasedRun, ?_, by decide +kernel, by decide +kernel⟩
  have hat : (((BusTask.call 0).attempting? ((startingAt .epoch).run releasedRun).bus).map (·.1)) = some 0 := by
    decide +kernel
  have hnode : (((startingAt .epoch).run releasedRun).bus.nodes[0]?).isSome = true := by decide +kernel
  obtain ⟨⟨k, a⟩, hat, rfl⟩ := Option.map_eq_some_iff.mp hat
  obtain ⟨n, hn⟩ := Option.isSome_iff_exists.mp hnode
  exact ⟨a, n, hat, dispatches_booked .epoch releasedRun sparesStore_releasedRun hat hn fun _ s => some s⟩

/-- Another dispatcher claims and processes the job, and it is purged, before the first one stores its record. -/
def purgedRun : List BusAction :=
  releasedRun ++
    [.add ⟨"b"⟩ .standard (.ofList [Bus.jobHandler]) .shared false, .process 1, stepOf 1, stepOf 1, stepOf 1,
      stepOf 1, stepOf 1, stepOf 1, .operate (.purge .latest), stepOf 0, stepOf 0]

/-- The first dispatcher counts its lost race as a failure of the store. -/
theorem purged_race_misbooked :
    (∀ x ∈ purgedRun, x.SparesStore) ∧
    ((startingAt .epoch).run purgedRun).bus.booked 1 .processed = 1 ∧
    ((startingAt .epoch).run purgedRun).bus.booked 0 .lostRace = 0 ∧
    ((startingAt .epoch).run purgedRun).bus.booked 0 .storeError = 1 := by
  refine ⟨?_, by decide +kernel, by decide +kernel, by decide +kernel⟩
  simp [purgedRun, releasedRun, stepOf, Bus.trueJob, BusAction.SparesStore, Bus.does_jobHandler, StoreOp.injects]

end Scene

end DurableQueue
