import DurableQueue.Proofs.Dispatch.Accounting
import DurableQueue.Proofs.Dispatch.Attempts
import DurableQueue.Proofs.Dispatch.Uncut

/-!
No entry is processed twice in normal operation.

`Bus.attempts_in_turn` covers any number of dispatchers of one limit in any modes and any interleaving of
their steps, among appends, claims, reads and purges of others and with clocks that are set at will, as
long as claims are left to those who hold them. Entries count the attempts that failed, unless an attempt
is cut off: a delay beyond every span ends it without a record (`Bus.failure_uncounted`).
-/

namespace DurableQueue

variable {limit : UInt32}

theorem StoreOp.IsNormal.isOrdinary {op : StoreOp} (h : op.IsNormal) (t : RetryTerms) :
    op.IsOrdinary t := by
  cases op with
  | reap p => exact h.elim
  | update claimed next => exact h
  | _ => trivial

/-- What is normal respects the terms. -/
theorem BusAction.IsNormal.respects {x : BusAction} (h : x.IsNormal limit) :
    x.Respects (Bus.terms limit) := by
  cases x with
  | add id config registry clock isAttached =>
    refine ⟨⟨h.1, fun _ => rfl⟩, fun r hr deliveries event context effect heffect => ?_⟩
    have hnormal := h.2 r hr deliveries event context effect heffect
    cases effect with
    | operate op => exact StoreOp.IsNormal.isOrdinary hnormal _
    | _ => trivial
  | operate op => exact StoreOp.IsNormal.isOrdinary h _
  | _ => trivial

namespace Bus

variable {b : Bus} {uncut : Prop} {log : List AttemptEvent}

theorem isKept_startingAt (limit : UInt32) (start : Timestamp) :
    (startingAt start).IsKept limit True [] where
  within := (Scene.isWithin_startingAt (terms limit) start).bus
  normal := ⟨by simp [startingAt], rfl⟩
  unfailing := rfl
  waiting := by simp [startingAt, waiting]
  distinct := by simp [startingAt, waiting]
  attempts t a ha := by cases t <;> simp [startingAt, BusTask.attempt?] at ha
  told id := by
    refine ⟨.idle, .nil, fun t a ha => ?_⟩
    cases t <;> simp [startingAt, BusTask.attempt?] at ha

theorem IsKept.mono {uncut' : Prop} (h : b.IsKept limit uncut log) (himp : uncut' → uncut) :
    b.IsKept limit uncut' log :=
  { h with
    told := fun id => by
      obtain ⟨p, hcourse, hin⟩ := h.told id
      refine ⟨p, hcourse, ?_⟩
      cases p with
      | running t c => exact { hin with present := fun huncut => hin.present (himp huncut) }
      | _ => exact hin }

/-- Whatever happens in normal operation keeps what was told. -/
theorem IsKept.act (h : b.IsKept limit uncut log) (hlimit : 0 < limit) {x : BusAction}
    (hx : x.IsNormal limit) (hback : b.takesBack x = false) :
    (b.act x).IsKept limit (uncut ∧ ¬ b.CutsOff x) (log ++ b.events x) := by
  have hclaim : ∀ e ∈ x.claim?, e.errorCount < (terms limit).limit := by
    intro e he
    cases x with
    | handle i e => exact hx.elim
    | resolve i e outcome => exact hx.elim
    | _ => cases he
  have hwithin := (keeps_act h.within hlimit hx.respects hclaim).bus
  obtain ⟨t, hcuts, hturns⟩ :=
    turns_act h.wellFormed h.normal (fun t a ha => (h.attempts t a ha).2.2) hx hback
  exact h.of_turns hwithin hturns fun huncut => ⟨huncut.1, fun hcut => huncut.2 (hcuts hcut)⟩

theorem IsKept.run (h : b.IsKept limit uncut log) (hlimit : 0 < limit) {actions : List BusAction}
    (hnormal : ∀ x ∈ actions, x.IsNormal limit) (hback : b.takesNothingBack actions = true) :
    (b.run actions).IsKept limit (uncut ∧ b.CutsNothingOff actions) (log ++ b.log actions) := by
  induction actions generalizing b uncut log with
  | nil =>
    rw [Bus.log, List.append_nil]
    exact h.mono And.left
  | cons x rest ih =>
    obtain ⟨hx, hnormal⟩ := List.forall_mem_cons.mp hnormal
    simp only [takesNothingBack, Bool.and_eq_true, Bool.not_eq_true'] at hback
    have hnext := ih (h.act hlimit hx hback.1) hnormal hback.2
    rw [List.append_assoc] at hnext
    exact hnext.mono fun huncut => ⟨⟨huncut.1, huncut.2.1⟩, huncut.2.2⟩

/-- What is told of the attempts on an entry, and where the bus is after that. -/
structure TakesTurns (limit : UInt32) (b : Bus) (id : EntryId) (log : List AttemptEvent) : Prop where
  /-- Of two attempts the first has stored its record before the second begins. -/
  apart : ∀ (i j : Nat) t t' c d, i < j → log[i]? = some (AttemptEvent.begun t c) →
    log[j]? = some (AttemptEvent.begun t' d) →
    ∃ (m : Nat) (next : Entry), i < m ∧ m < j ∧
      log[m]? = some (AttemptEvent.stored t c next (.ok ()))
  /-- The attempt of a task was the last to begin, so no two tasks make one at a time. -/
  alone : ∀ (t : BusTask) a, t.attempt? b = some a → a.entry.id = id →
    log.getLast? = some (.begun t a.entry)
  /-- Every update is accepted. -/
  accepted : ∀ t c next answer, AttemptEvent.stored t c next answer ∈ log → answer = .ok ()
  /-- Nothing follows an attempt that ended well. -/
  final : ∀ (i : Nat) t c next answer, log[i]? = some (AttemptEvent.stored t c next answer) →
    next.state = .processed → i + 1 = log.length
  once : log.countP AttemptEvent.isSuccess ≤ 1
  bounded : log.countP AttemptEvent.isBegun ≤ limit.toNat
  /-- Of the attempts that have stored their records, the failed ones are booked. -/
  booked : ∀ e ∈ b.hub.store.stored, e.id = id →
    e.errorCount.toNat + log.countP AttemptEvent.isSuccess = log.countP AttemptEvent.isStored

/-- What is told of the attempts on an entry while none is cut off. -/
structure CountsAll (b : Bus) (id : EntryId) (log : List AttemptEvent) : Prop where
  /-- An attempt whose record is not stored is in progress. -/
  inProgress : log.countP AttemptEvent.isBegun ≠ log.countP AttemptEvent.isStored →
    ∃ (t : BusTask) (a : Attempt), t.attempt? b = some a ∧ a.entry.id = id
  /-- While no attempt is in progress, the entry has counted those that did not end well. -/
  counted : (∀ (t : BusTask) a, t.attempt? b = some a → a.entry.id ≠ id) →
    ∀ e ∈ b.hub.store.stored, e.id = id →
      e.errorCount.toNat + log.countP AttemptEvent.isSuccess = log.countP AttemptEvent.isBegun

/-- The attempts that a limit allows suffice for those that were begun. -/
theorem IsKept.begun_le (h : b.IsKept limit uncut log) {id : EntryId} {p : AttemptPhase}
    {told : List AttemptEvent} (hcourse : Course told (b.hub.store.failures id) p)
    (hin : b.IsIn limit uncut id p) : told.countP AttemptEvent.isBegun ≤ limit.toNat := by
  have hcounts := hcourse.counts
  cases p with
  | idle =>
    rw [hcounts.1]
    by_cases hstored : ∃ e ∈ b.hub.store.stored, e.id = id
    · obtain ⟨e, he, rfl⟩ := hstored
      rw [Store.failures_eq h.wellFormed he]
      exact UInt32.le_iff_toNat_le.mp (h.within.store.within e he).bounded
    · rw [Store.failures_of_not_stored h.wellFormed fun e he hid => hstored ⟨e, he, hid⟩]
      exact Nat.zero_le _
  | running t c =>
    obtain rfl := hin.entry
    rw [hcounts.1, Store.failures_eq h.wellFormed hin.stored]
    exact UInt32.lt_iff_toNat_lt.mp ((h.within.store.within c hin.stored).spare (.inr hin.state))
  | done =>
    rw [hcounts.1]
    exact hin.1

/-- What is told of an entry whose attempts follow their course. -/
theorem IsKept.takesTurns (h : b.IsKept limit uncut log) (id : EntryId) :
    b.TakesTurns limit id (log.filter (·.isOn id)) := by
  obtain ⟨p, hcourse, hin⟩ := h.told id
  have hbounded := h.begun_le hcourse hin
  generalize log.filter (·.isOn id) = told at hcourse hbounded ⊢
  have hcounts := hcourse.counts
  refine ⟨?_, ?_, ?_, ?_, ?_, hbounded, ?_⟩
  · intro i j t t' c d hij hi hj
    exact hcourse.apart hi hj hij
  · rintro t a ha rfl
    obtain rfl := h.running_of_attempt ha hin
    exact hcourse.getLast?_of_running
  · intro t c next answer hmem
    exact hcourse.accepted hmem
  · intro i t c next answer hi hstate
    exact ((hcourse.succeeded_iff hi).mp hstate).2
  · cases p with
    | done => exact Nat.le_of_eq hcounts.2.2
    | _ => exact hcounts.2.2 ▸ Nat.zero_le 1
  · rintro e he rfl
    have hfailures := Store.failures_eq h.wellFormed he
    cases p with
    | idle => omega
    | running t c => omega
    | done => omega

/-- An attempt that was begun, and whose record is not stored, is in progress. -/
theorem IsKept.attempt_of_begun (h : b.IsKept limit uncut log) (huncut : uncut) {id : EntryId}
    (hnot : (log.filter (·.isOn id)).countP AttemptEvent.isBegun ≠
      (log.filter (·.isOn id)).countP AttemptEvent.isStored) :
    ∃ t a, BusTask.attempt? b t = some a ∧ a.entry.id = id := by
  obtain ⟨p, hcourse, hin⟩ := h.told id
  have hcounts := hcourse.counts
  cases p with
  | running t c =>
    obtain ⟨a, ha, rfl⟩ := hin.present huncut
    exact ⟨t, a, ha, hin.entry⟩
  | idle => exact absurd (hcounts.1.trans hcounts.2.1.symm) hnot
  | done => exact absurd (hcounts.1.trans hcounts.2.1.symm) hnot

/-- While nothing is cut off, everything that was begun is in progress or counted. -/
theorem IsKept.countsAll (h : b.IsKept limit uncut log) (huncut : uncut) (id : EntryId) :
    b.CountsAll id (log.filter (·.isOn id)) where
  inProgress hnot := h.attempt_of_begun huncut hnot
  counted hnone e he hid := by
    have hstored : (log.filter (·.isOn id)).countP AttemptEvent.isBegun =
        (log.filter (·.isOn id)).countP AttemptEvent.isStored := by
      by_contra hnot
      obtain ⟨t, a, ha, hentry⟩ := h.attempt_of_begun huncut hnot
      exact hnone t a ha hentry
    rw [hstored]
    exact (h.takesTurns id).booked e he hid

/-- Whatever dispatchers of one limit do in normal operation, in whatever order, the attempts on each
entry take turns: no two overlap, every update is accepted, nothing follows an attempt that ended well,
there are no more attempts than the limit allows, and the entry has booked those that failed. As long as
nothing is cut off, every attempt that was begun is in progress or counted; and that is so if jitter is drawn
for all delays up to the longest and no shutdown makes workers stop. No configuration with the limit 0 passes
its check. -/
theorem attempts_in_turn (limit : UInt32) (hlimit : 0 < limit) (start : Timestamp)
    (actions : List BusAction) (hnormal : ∀ x ∈ actions, x.IsNormal limit)
    (hback : (startingAt start).takesNothingBack actions = true) (id : EntryId) :
    ((startingAt start).run actions).TakesTurns limit id ((startingAt start).logOf actions id) ∧
      ((startingAt start).CutsNothingOff actions →
        ((startingAt start).run actions).CountsAll id ((startingAt start).logOf actions id)) ∧
      ∀ longest, (∀ x ∈ actions, x.DrawsUpTo longest) →
        (startingAt start).abortsNothing actions = true →
        ((startingAt start).run actions).CountsAll id ((startingAt start).logOf actions id) := by
  have hkept := (isKept_startingAt limit start).run hlimit hnormal hback
  rw [List.nil_append] at hkept
  refine ⟨hkept.takesTurns id, fun huncut => hkept.countsAll ⟨trivial, huncut⟩ id, ?_⟩
  intro longest hdraws haborts
  have huncut := (waitsUpTo_startingAt longest start).cutsNothingOff hdraws haborts
  exact hkept.countsAll ⟨trivial, huncut⟩ id

/-- A handler that takes every order. -/
def orderHandler : Handler := ⟨⟨"order", .bool⟩, fun _ _ _ => ⟨[], .succeeded⟩⟩

/-- Two dispatchers claim one order each; only the first has a handler for orders. -/
def twoOrdersRun : List BusAction :=
  let step (i : Nat) : BusAction := .task (.call i) fun _ s => some s
  let config := { DispatchConfig.standard with
    retryPolicy := { RetryPolicy.standard with maxFailureRetries := 2 } }
  let order : NewEntry := ⟨⟨"order", [116, 114, 117, 101]⟩, ⟨"a"⟩, .none⟩
  [.add ⟨"a"⟩ config (.ofList [orderHandler]) .shared false, .add ⟨"b"⟩ config .empty .shared false,
    .operate (.append order), .process 0, .process 1, step 0, .operate (.append order), step 1,
    step 0, step 1, step 0, step 1, step 0, step 1, step 0]

theorem isNormal_twoOrdersRun : ∀ x ∈ twoOrdersRun, x.IsNormal 2 := by
  have hhandler : (Registry.ofList [orderHandler]).Does Effect.IsNormal := by
    intro h hh deliveries event context effect heffect
    obtain rfl := List.mem_singleton.mp (show h ∈ [⟨orderHandler, []⟩] from hh)
    cases heffect
  have hempty : Registry.empty.Does Effect.IsNormal := fun h hh => by cases hh
  refine List.forall_mem_cons.mpr ⟨⟨rfl, hhandler⟩, List.forall_mem_cons.mpr ⟨⟨rfl, hempty⟩, ?_⟩⟩
  simp [BusAction.IsNormal, StoreOp.IsNormal]

theorem drawsUpTo_twoOrdersRun : ∀ x ∈ twoOrdersRun, x.DrawsUpTo (.ofSeconds 300) := by
  have hbackoff : RetryPolicy.standard.maxBackoff ≤ .ofSeconds 300 := by decide
  simp [twoOrdersRun, BusAction.DrawsUpTo, Draw.answersUpTo_some, hbackoff]

/-- The first order is processed and the second fails; each had one attempt. -/
theorem attempts_in_turn_twoOrdersRun :
    (0 : UInt32) < 2 ∧ (∀ x ∈ twoOrdersRun, x.IsNormal 2) ∧
    (startingAt .epoch).takesNothingBack twoOrdersRun = true ∧
    (startingAt .epoch).CutsNothingOff twoOrdersRun ∧
    (∀ x ∈ twoOrdersRun, x.DrawsUpTo (.ofSeconds 300)) ∧
    (startingAt .epoch).abortsNothing twoOrdersRun = true ∧
    (((startingAt .epoch).run twoOrdersRun).hub.store.live.map fun e => (e.state, e.errorCount)) =
      [(.processed, 0), (.failed, 1)] ∧
    ((startingAt .epoch).log twoOrdersRun).map AttemptEvent.isBegun = [true, true, false, false] ∧
    ((startingAt .epoch).run twoOrdersRun).TakesTurns 2 ⟨1⟩
      ((startingAt .epoch).logOf twoOrdersRun ⟨1⟩) ∧
    ((startingAt .epoch).run twoOrdersRun).CountsAll ⟨2⟩
      ((startingAt .epoch).logOf twoOrdersRun ⟨2⟩) := by
  have hback : (startingAt .epoch).takesNothingBack twoOrdersRun = true := by decide +kernel
  have haborts : (startingAt .epoch).abortsNothing twoOrdersRun = true := by decide +kernel
  have huncut : (startingAt .epoch).CutsNothingOff twoOrdersRun :=
    (waitsUpTo_startingAt _ _).cutsNothingOff drawsUpTo_twoOrdersRun haborts
  have hfirst := attempts_in_turn 2 (by decide) .epoch twoOrdersRun isNormal_twoOrdersRun hback ⟨1⟩
  have hsecond := attempts_in_turn 2 (by decide) .epoch twoOrdersRun isNormal_twoOrdersRun hback ⟨2⟩
  exact ⟨by decide, isNormal_twoOrdersRun, hback, huncut, drawsUpTo_twoOrdersRun, haborts, by decide +kernel,
    by decide +kernel, hfirst.1, hsecond.2.2 _ drawsUpTo_twoOrdersRun haborts⟩

/-- A bus whose workers and calls make no attempts. -/
theorem attempt?_eq_none (hnodes : b.nodes.flatMap Node.workers = [])
    (hcalls : b.calls.filterMap Call.attempt? = []) (t : BusTask) : t.attempt? b = none := by
  cases t with
  | worker node i =>
    refine Option.bind_eq_none_iff.mpr fun n hn => ?_
    have hworkers := List.flatMap_eq_nil_iff.mp hnodes n (List.mem_of_getElem? hn)
    simp [Node.attempt?, hworkers]
  | call i =>
    refine Option.bind_eq_none_iff.mpr fun c hc => ?_
    exact List.filterMap_eq_nil_iff.mp hcalls c (List.mem_of_getElem? hc)
  | _ => rfl

/-- The only attempt on a job fails, and with jitter its delay is beyond every span. Nobody makes workers stop
and nothing is in progress any more, but the entry has not counted the attempt. -/
theorem failure_uncounted :
    longestDelays.validate = .ok () ∧ (∀ x ∈ longestDelaysRun, x.IsNormal 5) ∧
    (startingAt .epoch).takesNothingBack longestDelaysRun = true ∧
    (startingAt .epoch).abortsNothing longestDelaysRun = true ∧
    (∀ t : BusTask, t.attempt? ((startingAt .epoch).run longestDelaysRun) = none) ∧
    (((startingAt .epoch).run longestDelaysRun).hub.store.live.map fun e => (e.id, e.errorCount)) =
      [(⟨1⟩, 0)] ∧
    ((startingAt .epoch).logOf longestDelaysRun ⟨1⟩).map AttemptEvent.isBegun = [true] ∧
    ¬ ((startingAt .epoch).run longestDelaysRun).CountsAll ⟨1⟩
      ((startingAt .epoch).logOf longestDelaysRun ⟨1⟩) := by
  have hnormal : ∀ x ∈ longestDelaysRun, x.IsNormal 5 := by
    refine List.forall_mem_cons.mpr ⟨⟨rfl, does_jobHandler _⟩, ?_⟩
    simp [falseJob, BusAction.IsNormal, StoreOp.IsNormal]
  have hnone (t : BusTask) : t.attempt? ((startingAt .epoch).run longestDelaysRun) = none :=
    attempt?_eq_none (by decide +kernel) (by decide +kernel) t
  have hentry : ∃ e ∈ ((startingAt .epoch).run longestDelaysRun).hub.store.stored,
      e.id = ⟨1⟩ ∧ e.errorCount.toNat = 0 := by decide +kernel
  have hbegun : ((startingAt .epoch).logOf longestDelaysRun ⟨1⟩).countP AttemptEvent.isSuccess <
      ((startingAt .epoch).logOf longestDelaysRun ⟨1⟩).countP AttemptEvent.isBegun := by decide +kernel
  refine ⟨by decide +kernel, hnormal, by decide +kernel, by decide +kernel, hnone, by decide +kernel,
    by decide +kernel, fun hcounts => ?_⟩
  obtain ⟨e, he, hid, hcount⟩ := hentry
  have hidle : ∀ (t : BusTask) a,
      t.attempt? ((startingAt .epoch).run longestDelaysRun) = some a → a.entry.id ≠ ⟨1⟩ := by
    intro t a ha
    rw [hnone t] at ha
    cases ha
  have hall := hcounts.counted hidle e he hid
  omega

end Bus

end DurableQueue
