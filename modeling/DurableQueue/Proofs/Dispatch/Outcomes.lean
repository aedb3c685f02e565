import DurableQueue.Proofs.Dispatch.Accounting
import DurableQueue.Proofs.Dispatch.Invocation
import DurableQueue.Proofs.Retry.Backoff
import DurableQueue.Proofs.Time.Order
import Mathlib.Logic.Relation

/-!
What becomes of a claim.

A dispatch comes to the judgement of the registry (`Registry.judgement`), however long its handler sleeps
and whatever happens to the store and to other entries meanwhile (`Node.DispatchesTo`). From the judgement
the next record is built and stored, and the entry is then as the table of outcomes has it
(`DispatchOutcome.IsRealised`). A record cannot be built only if a retry draws a delay beyond every span
(`DispatchOutcome.nextEntry_eq_none_iff`).
-/

namespace DurableQueue

namespace Registry

/-- What a dispatch of an entry comes to. -/
def judgement (r : Registry) (c : Entry) : DispatchOutcome :=
  match r.invocation c with
  | .error outcome => outcome
  | .ok v => v.activity.result.outcome c.payload.eventType

/-- An outcome that says what was found for an entry, and how its handler ended. -/
structure Judges (r : Registry) (c : Entry) (outcome : DispatchOutcome) : Prop where
  undecodable_iff : (∃ reason, outcome = .undecodable reason) ↔
    ∀ h, r.find? c.payload.eventType = some h →
      ∀ event, h.handler.eventType.decode c.payload.body ≠ .ok event
  processed_iff : outcome = .processed ↔
    ∃ v, r.invocation c = .ok v ∧ v.activity.result = .succeeded
  handlerFailed_iff : (∃ detail, outcome = .handlerFailed detail) ↔
    ∃ v, r.invocation c = .ok v ∧
      ((∃ detail, v.activity.result = .failed detail) ∨ ∃ detail, v.activity.result = .panicked detail)

variable {r : Registry} {c : Entry}

/-- A dispatch is over without an invocation exactly if no handler is found or the body does not decode. -/
theorem invocation_eq_error_iff :
    (∃ outcome, r.invocation c = .error outcome) ↔
      ∀ h, r.find? c.payload.eventType = some h →
        ∀ event, h.handler.eventType.decode c.payload.body ≠ .ok event := by
  constructor
  · rintro ⟨outcome, herror⟩ h hfind event hdecode
    simp only [invocation, hfind, hdecode, reduceCtorEq] at herror
  · intro hnone
    cases hv : r.invocation c with
    | error outcome => exact ⟨outcome, rfl⟩
    | ok v =>
      obtain ⟨hfind, hdecode, -⟩ := find?_of_invocation hv
      exact absurd hdecode (hnone _ hfind _)

/-- Without an invocation the outcome gives the reason. -/
theorem exists_undecodable_of_invocation {outcome : DispatchOutcome} (h : r.invocation c = .error outcome) :
    ∃ reason, outcome = .undecodable reason := by
  unfold invocation at h
  split at h
  · cases h
    exact ⟨_, rfl⟩
  · split at h
    · cases h
      exact ⟨_, rfl⟩
    · cases h

theorem judges_judgement (r : Registry) (c : Entry) : r.Judges c (r.judgement c) := by
  cases hv : r.invocation c with
  | error outcome =>
    obtain ⟨reason, rfl⟩ := exists_undecodable_of_invocation hv
    have hjudgement : r.judgement c = .undecodable reason := by rw [judgement, hv]
    rw [hjudgement]
    have hnone := invocation_eq_error_iff.mp ⟨_, hv⟩
    exact ⟨iff_of_true ⟨reason, rfl⟩ hnone, by simp [hv], by simp [hv]⟩
  | ok v =>
    have hinvoked : ¬ ∃ outcome, r.invocation c = .error outcome := by simp [hv]
    have hdecodes := mt invocation_eq_error_iff.mpr hinvoked
    have hjudgement : r.judgement c = v.activity.result.outcome c.payload.eventType := by
      rw [judgement, hv]
    rw [hjudgement]
    refine ⟨iff_of_false ?_ hdecodes, ?_, ?_⟩
    all_goals cases hresult : v.activity.result <;> simp [hv, hresult, HandlerResult.outcome]

/-- An attempt away from any store comes to the judgement too; without an invocation no handler notes or
remembers anything. -/
theorem attempt_eq_judgement (r : Registry) (c : Entry) :
    (r.attempt c).1 = r.judgement c ∧
      ((∃ reason, r.judgement c = .undecodable reason) → (r.attempt c).2 = ([], r)) := by
  have hjudges := r.judges_judgement c
  unfold attempt
  rw [prepare_eq]
  cases hv : r.invocation c with
  | error outcome => exact ⟨by rw [judgement, hv]; rfl, fun _ => rfl⟩
  | ok v =>
    refine ⟨by rw [judgement, hv]; rfl, fun hundecodable => ?_⟩
    obtain ⟨hfind, hdecode, -⟩ := find?_of_invocation hv
    exact absurd hdecode (hjudges.undecodable_iff.mp hundecodable _ hfind _)

end Registry

namespace Attempt

/-- One step of an attempt, whatever jitter is drawn, and however its hub and its node stand by then. -/
def Goes (a a' : Attempt) : Prop :=
  ∃ draw h n h' n', a.step? draw h n = some (.going a', h', n')

/-- The handler is at work. -/
def IsHandling : Attempt → Prop
  | handling _ _ _ | sleeping _ _ _ _ => True
  | _ => False

/-- An attempt on an entry for which this is found. -/
def IsFor (r : Registry) (c : Entry) : Attempt → Prop
  | handling e _ result | sleeping e _ _ result =>
    e = c ∧ ∃ v, r.invocation c = .ok v ∧ v.activity.result = result
  | judged e outcome | storing e _ outcome => e = c ∧ outcome = r.judgement c
  | booking e _ => e = c

variable {r : Registry} {n : Node} {c : Entry} {a a' : Attempt}

theorem isFor_begin_ (n : Node) (c : Entry) : (begin_ n c).1.IsFor n.registry c := by
  unfold begin_
  simp only [Node.count, Registry.prepare_eq]
  cases hv : n.registry.invocation c with
  | error outcome => exact ⟨rfl, by rw [Registry.judgement, hv]⟩
  | ok v => exact ⟨rfl, v, hv, rfl⟩

/-- The handler ends as the registry has it, and nothing changes the outcome after that. -/
theorem IsFor.of_goes (ha : a.IsFor r c) (h : a.Goes a') : a'.IsFor r c := by
  obtain ⟨draw, hub, n, hub', n', hstep⟩ := h
  cases a with
  | handling e effects result =>
    obtain ⟨rfl, v, hv, rfl⟩ := ha
    cases effects with
    | nil =>
      simp only [step?, Option.some.injEq, Prod.mk.injEq, Progress.going.injEq] at hstep
      obtain ⟨rfl, -, -⟩ := hstep
      exact ⟨rfl, by rw [Registry.judgement, hv]⟩
    | cons effect rest =>
      cases effect <;>
        · simp only [step?, Option.some.injEq, Prod.mk.injEq, Progress.going.injEq] at hstep
          obtain ⟨rfl, -, -⟩ := hstep
          exact ⟨rfl, v, hv, rfl⟩
  | sleeping e wakeAt effects result =>
    simp only [step?] at hstep
    split at hstep
    · cases hstep
      exact ha
    · cases hstep
  | judged e outcome =>
    simp only [step?] at hstep
    split at hstep
    · cases hstep
      exact ha
    · cases hstep
  | storing e next outcome =>
    simp only [step?, store] at hstep
    split at hstep
    · cases hstep
    · cases hstep
      exact ha.1
  | booking e verdict => cases hstep

theorem IsFor.of_reaches (ha : a.IsFor r c) (h : Relation.ReflTransGen Goes a a') : a'.IsFor r c := by
  induction h with
  | refl => exact ha
  | tail _ hgoes ih => exact ih.of_goes hgoes

/-- Once it is due a sleeping handler goes on. -/
theorem goes_of_sleeping (n : Node) (e : Entry) (wakeAt : Nat) (effects : List Effect)
    (result : HandlerResult) : (sleeping e wakeAt effects result).Goes (handling e effects result) := by
  let due : Hub := { (default : Hub) with now := wakeAt }
  exact ⟨fun _ => none, due, n, due, n, if_pos (Nat.le_refl wakeAt)⟩

/-- A handler that is at work comes to its end, by induction on what it has still to do. -/
theorem reaches_judged (n : Node) (e : Entry) (effects : List Effect) (result : HandlerResult) :
    Relation.ReflTransGen Goes (handling e effects result)
      (judged e (result.outcome e.payload.eventType)) := by
  induction effects with
  | nil => exact .single ⟨fun _ => none, default, n, _, _, rfl⟩
  | cons effect rest ih =>
    cases effect with
    | sleep span =>
      refine .head ⟨fun _ => none, default, n, _, _, rfl⟩ (.head (goes_of_sleeping n _ _ _ _) ih)
    | note note => exact .head ⟨fun _ => none, default, n, _, _, rfl⟩ ih
    | remember d => exact .head ⟨fun _ => none, default, n, _, _, rfl⟩ ih
    | operate op => exact .head ⟨fun _ => none, default, n, _, _, rfl⟩ ih

end Attempt

/-- A dispatch of an entry by a dispatcher, up to the outcome. -/
structure Node.DispatchesTo (n : Node) (c : Entry) (outcome : DispatchOutcome) : Prop where
  judges : n.registry.Judges c outcome
  reached : Relation.ReflTransGen Attempt.Goes (Attempt.begin_ n c).1 (.judged c outcome)
  alone : ∀ e outcome', Relation.ReflTransGen Attempt.Goes (Attempt.begin_ n c).1 (.judged e outcome') →
    e = c ∧ outcome' = outcome
  unhandled : (∃ reason, outcome = .undecodable reason) →
    ∀ a, Relation.ReflTransGen Attempt.Goes (Attempt.begin_ n c).1 a → ¬ a.IsHandling

theorem Node.dispatchesTo_judgement (n : Node) (c : Entry) :
    n.DispatchesTo c (n.registry.judgement c) where
  judges := n.registry.judges_judgement c
  reached := by
    unfold Attempt.begin_
    simp only [Node.count, Registry.prepare_eq]
    cases hv : n.registry.invocation c with
    | error outcome =>
      rw [Registry.judgement, hv]
      exact .refl
    | ok v =>
      rw [Registry.judgement, hv]
      exact Attempt.reaches_judged n c _ _
  alone _ _ h := (Attempt.isFor_begin_ n c).of_reaches h
  unhandled hundecodable a h hhandling := by
    obtain ⟨v, hv⟩ : ∃ v, n.registry.invocation c = .ok v := by
      have ha := (Attempt.isFor_begin_ n c).of_reaches h
      cases a with
      | handling e effects result => exact ha.2.imp fun _ hv => hv.1
      | sleeping e wakeAt effects result => exact ha.2.imp fun _ hv => hv.1
      | _ => exact hhandling.elim
    obtain ⟨hfind, hdecode, -⟩ := Registry.find?_of_invocation hv
    exact (n.registry.judges_judgement c).undecodable_iff.mp hundecodable _ hfind _ hdecode

namespace DispatchOutcome

variable {outcome : DispatchOutcome} {p : RetryPolicy} {draw : Draw} {c next : Entry}
  {now now' : Timestamp} {s : Store} {t : Timestamp}

/-- No record can be built exactly if a failed attempt is to be tried again after a delay that is drawn
beyond every span. -/
theorem nextEntry_eq_none_iff :
    outcome.nextEntry p draw c now = none ↔
      (∃ detail, outcome = .handlerFailed detail) ∧
        countFailure c.errorCount < p.maxFailureRetries ∧
        ¬ p.jitterFactor ≤ 0.0 ∧
        p.backoff (countFailure c.errorCount) < p.backoff (countFailure (countFailure c.errorCount)) ∧
        draw (p.backoff (countFailure c.errorCount)) = none := by
  cases outcome with
  | processed => simp [nextEntry]
  | undecodable reason => simp [nextEntry]
  | handlerFailed detail =>
    rw [← RetryPolicy.delay_eq_none_iff]
    simp only [nextEntry, Option.map_eq_none_iff, RetryPolicy.decide]
    by_cases hlimit : p.maxFailureRetries ≤ countFailure c.errorCount
    · rw [if_pos hlimit]
      simp [UInt32.not_lt.mpr hlimit]
    · rw [if_neg hlimit]
      simp [UInt32.not_le.mp hlimit]

/-- What the store has of a claim once its outcome was stored. -/
structure IsRealised (outcome : DispatchOutcome) (p : RetryPolicy) (draw : Draw) (now now' : Timestamp)
    (c e : Entry) : Prop where
  cleared : e.processingOwner = none
  identity : e.id = c.id ∧ e.payload = c.payload ∧ e.creatingOwner = c.creatingOwner ∧
    e.createdTime = c.createdTime ∧ e.searchKeys = c.searchKeys
  updated : e.updatedTime = now'
  processed : outcome = .processed → e.state = .processed ∧ e.errorCount = c.errorCount
  undecodable : ∀ reason, outcome = .undecodable reason →
    e.state = .failed ∧ e.errorCount = countFailure c.errorCount
  counted : ∀ detail, outcome = .handlerFailed detail → e.errorCount = countFailure c.errorCount
  retried : ∀ detail t, outcome = .handlerFailed detail →
    countFailure c.errorCount < p.maxFailureRetries → p.RetriesAt draw (countFailure c.errorCount) now t →
    e.state = .available ∧ e.nextAvailableTime = t ∧ p.IsBetweenSteps (countFailure c.errorCount) now t
  givenUp : ∀ detail, outcome = .handlerFailed detail →
    (countFailure c.errorCount < p.maxFailureRetries →
      ∀ t, ¬ p.RetriesAt draw (countFailure c.errorCount) now t) → e.state = .failed

/-- The store takes over the count of a failed attempt, the largest count included. -/
theorem errorCount_resolved (h : next.errorCount = countFailure c.errorCount) (now' : Timestamp) :
    (Store.resolved c next now').errorCount = countFailure c.errorCount := by
  have hle := le_countFailure c.errorCount
  simp only [Store.resolved, h]
  split
  · rfl
  · rename_i hlt
    rw [UInt32.lt_iff_toNat_lt] at hlt
    exact UInt32.toNat_inj.mp (by omega)

theorem isRealised_resolved (h : outcome.nextEntry p draw c now = some next) (now' : Timestamp) :
    outcome.IsRealised p draw now now' c (Store.resolved c next now') := by
  cases outcome with
  | processed =>
    cases h
    exact ⟨rfl, ⟨rfl, rfl, rfl, rfl, rfl⟩, rfl, fun _ => ⟨rfl, ite_self _⟩, nofun, nofun,
      fun _ _ h => (nomatch h), fun _ h => (nomatch h)⟩
  | undecodable reason =>
    have hnext := Option.some.inj h
    have hstate : next.state = .failed := by rw [← hnext]
    have hcount : next.errorCount = countFailure c.errorCount := by rw [← hnext]
    exact ⟨rfl, ⟨rfl, rfl, rfl, rfl, rfl⟩, rfl, nofun,
      fun _ _ => ⟨hstate, errorCount_resolved hcount now'⟩, nofun,
      fun _ _ h => (nomatch h), fun _ h => (nomatch h)⟩
  | handlerFailed detail =>
    obtain ⟨decision, hdecision, hnext⟩ := Option.map_eq_some_iff.mp h
    have hcount : next.errorCount = countFailure c.errorCount := by
      rw [← hnext]
      cases decision <;> rfl
    refine ⟨rfl, ⟨rfl, rfl, rfl, rfl, rfl⟩, rfl, nofun, nofun, fun _ _ => errorCount_resolved hcount now',
      ?_, ?_⟩
    · intro _ t _ hlimit ht
      -- the decision is this retry, for it names one time only
      obtain rfl : decision = .retry t :=
        Option.some.inj (hdecision.symm.trans (RetryPolicy.decide_eq_retry_iff.mpr ⟨hlimit, ht⟩))
      have hstate : next.state = .available ∧ next.nextAvailableTime = t := by
        rw [← hnext]
        exact ⟨rfl, rfl⟩
      exact ⟨hstate.1, hstate.2, ht.isBetweenSteps⟩
    · intro _ _ hnever
      cases decision with
      | retry t =>
        obtain ⟨hlimit, ht⟩ := RetryPolicy.decide_eq_retry_iff.mp hdecision
        exact absurd ht (hnever hlimit t)
      | giveUp reason =>
        have hstate : next.state = .failed := by rw [← hnext]
        exact hstate

end DispatchOutcome

namespace Store

/-- The store has a claim as it was answered. -/
structure HoldsClaim (s : Store) (c : Entry) : Prop where
  stored : s.liveEntry? c.id = some c
  claimed : c.state = .inProcessing

variable {s : Store} {c next : Entry} {now : Timestamp} {id : EntryId}

theorem liveEntry?_replace_of_ne (s : Store) (hid : id ≠ next.id) :
    liveEntry? (s.replace next) id = s.liveEntry? id := by
  unfold replace liveEntry?
  simp only
  induction s.live with
  | nil => rfl
  | cons e es ih =>
    rw [List.map_cons, List.find?_cons, List.find?_cons, ih]
    by_cases he : e.id = next.id
    · have hnext : (next.id == id) = false := beq_eq_false_iff_ne.mpr hid.symm
      rw [if_pos he, hnext, he, hnext]
    · rw [if_neg he]

/-- The record of an outcome is stored in the place of the claim, and only there. -/
theorem HoldsClaim.update_eq (h : s.HoldsClaim c) (hleft : s.failuresLeft = 0)
    (hmove : EntryState.inProcessing.canMoveTo next.state = true) (now : Timestamp) :
    s.update c next now = (.ok (), s.replace (resolved c next now)) := by
  refine update_of_held hleft h.stored (isSameClaim_iff.mpr ⟨h.claimed, rfl, rfl⟩) ?_
  rw [h.claimed]
  exact hmove

/-- An update is refused for its state only if it asks a claim to be claimed again. -/
theorem canMoveTo_of_update_eq {claimed : Entry} {state state' : EntryState}
    (h : (s.update claimed next now).1 = .error (.invalidMove id state state')) :
    EntryState.inProcessing.canMoveTo next.state = false := by
  cases hleft : s.failuresLeft with
  | succ left =>
    simp only [update, guarded, hleft] at h
    cases h
  | zero =>
    cases hfind : s.liveEntry? claimed.id with
    | none =>
      rw [update_of_none hleft hfind] at h
      cases h
    | some stored =>
      cases hsame : isSameClaim stored claimed with
      | false =>
        rw [update_of_lost hleft hfind hsame] at h
        cases h
      | true =>
        rw [← (isSameClaim_iff.mp hsame).1]
        cases hmove : stored.state.canMoveTo next.state with
        | false => rfl
        | true =>
          rw [update_of_held hleft hfind hsame hmove] at h
          cases h

end Store

/-- Dispatch, the next record and its storing come to the table of outcomes. A claim that is still held is
stored as its outcome says, whatever the policy, the draw and the clocks, unless no record can be built or
the store is made to fail. No record of any entry is refused for its state. -/
theorem Node.outcomes_realised (n : Node) (p : RetryPolicy) (draw : Draw) (now now' : Timestamp) :
    (∀ c, n.DispatchesTo c (n.registry.judgement c) ∧ (n.registry.attempt c).1 = n.registry.judgement c ∧
      ((∃ reason, n.registry.judgement c = .undecodable reason) →
        (n.registry.attempt c).2 = ([], n.registry))) ∧
    (∀ (s : Store) (c : Entry), s.HoldsClaim c → ∀ (outcome : DispatchOutcome) (next : Entry),
      outcome.nextEntry p draw c now = some next →
      (s.failuresLeft = 0 → ∃ s' e, s.update c next now' = (.ok (), s') ∧ s'.liveEntry? c.id = some e ∧
        outcome.IsRealised p draw now now' c e ∧ ∀ id ≠ c.id, s'.liveEntry? id = s.liveEntry? id) ∧
      ∀ left, s.failuresLeft = left + 1 →
        s.update c next now' = (.error .injected, { s with failuresLeft := left })) ∧
    (∀ (c : Entry) (outcome : DispatchOutcome), outcome.nextEntry p draw c now = none ↔
      (∃ detail, outcome = .handlerFailed detail) ∧
        countFailure c.errorCount < p.maxFailureRetries ∧
        ¬ p.jitterFactor ≤ 0.0 ∧
        p.backoff (countFailure c.errorCount) < p.backoff (countFailure (countFailure c.errorCount)) ∧
        draw (p.backoff (countFailure c.errorCount)) = none) ∧
    ∀ (c next : Entry) (outcome : DispatchOutcome), outcome.nextEntry p draw c now = some next →
      ∀ (s : Store) (claimed : Entry) (id : EntryId) (state state' : EntryState),
        (s.update claimed next now').1 ≠ .error (.invalidMove id state state') := by
  refine ⟨fun c => ⟨n.dispatchesTo_judgement c, n.registry.attempt_eq_judgement c⟩, ?_,
    fun c outcome => DispatchOutcome.nextEntry_eq_none_iff, ?_⟩
  · intro s c hheld outcome next hnext
    refine ⟨fun hleft => ?_, fun left hleft => by simp only [Store.update, Store.guarded, hleft]⟩
    have hmove := DispatchOutcome.canMoveTo_nextEntry hnext
    refine ⟨_, _, hheld.update_eq hleft hmove now', ?_, DispatchOutcome.isRealised_resolved hnext now', ?_⟩
    · have hstored : s.liveEntry? (Store.resolved c next now').id = some c := hheld.stored
      exact Store.liveEntry?_replace hstored
    · exact fun id hid => Store.liveEntry?_replace_of_ne s hid
  · intro c next outcome hnext s claimed id state state' hrefused
    have hmove := DispatchOutcome.canMoveTo_nextEntry hnext
    rw [Store.canMoveTo_of_update_eq hrefused] at hmove
    cases hmove

/-- A dispatcher with a handler of jobs. -/
def jobNode : Node :=
  { id := ⟨"a"⟩, config := .standard, registry := .ofList [Bus.jobHandler], clock := .shared,
    isAttached := false, isStarted := false, isCancelled := false, stats := .zero, queue := [],
    workers := [], claimLoop := none, reaper := none, subscription := none }

/-- A store with one job, which the handler does not take. -/
def jobStore : Store :=
  (Store.empty.append ⟨⟨"job", [102, 97, 108, 115, 101]⟩, ⟨"a"⟩, .none⟩ .epoch).2

/-- The store after the job was claimed. -/
def heldStore : Store := (jobStore.claim 1 ⟨"a"⟩ none .epoch).2

def heldJob : Entry :=
  (Entry.ofNew ⟨1⟩ ⟨⟨"job", [102, 97, 108, 115, 101]⟩, ⟨"a"⟩, .none⟩ .epoch).claimedBy ⟨"a"⟩ .epoch

/-- The job fails for the first time, and can be claimed again a second later. -/
theorem outcomes_realised_heldJob :
    heldStore.HoldsClaim heldJob ∧
    (∃ detail, jobNode.registry.judgement heldJob = .handlerFailed detail) ∧
    jobNode.DispatchesTo heldJob (jobNode.registry.judgement heldJob) ∧
    ∃ next s' e,
      (jobNode.registry.judgement heldJob).nextEntry .standard some heldJob .epoch = some next ∧
      heldStore.update heldJob next .epoch = (.ok (), s') ∧ s'.liveEntry? heldJob.id = some e ∧
      e.state = .available ∧ e.errorCount = 1 ∧
      some e.nextAvailableTime = Timestamp.epoch.plus? (.ofSeconds 1) := by
  obtain ⟨hdispatches, hrealised, hnone, -⟩ := jobNode.outcomes_realised .standard some .epoch .epoch
  have hheld : heldStore.HoldsClaim heldJob := ⟨by decide, by decide⟩
  have hjudgement : jobNode.registry.judgement heldJob =
      .handlerFailed (DispatchError.handler "job" "no").message := by decide +kernel
  cases hnext : (jobNode.registry.judgement heldJob).nextEntry .standard some heldJob .epoch with
  | none =>
    obtain ⟨-, -, -, -, hdraw⟩ := (hnone _ _).mp hnext
    cases hdraw
  | some next =>
    obtain ⟨s', e, hupdate, hstored, he, -⟩ := (hrealised _ _ hheld _ _ hnext).1 (by decide)
    refine ⟨hheld, ⟨_, hjudgement⟩, (hdispatches heldJob).1, next, s', e, rfl, hupdate, hstored, ?_⟩
    obtain ⟨t, ht⟩ : ∃ t, Timestamp.epoch.plus? (.ofSeconds 1) = some t :=
      Option.isSome_iff_exists.mp (by decide)
    have hretries : RetryPolicy.standard.RetriesAt some (countFailure heldJob.errorCount) .epoch t :=
      ⟨.ofSeconds 1, by decide +kernel, by decide, ht⟩
    obtain ⟨hstate, htime, -⟩ := he.retried _ t hjudgement (by decide) hretries
    exact ⟨hstate, he.counted _ hjudgement, by rw [htime, ht]⟩

/-- With this policy the first failure of a job is to be followed by a retry, and there is no record: its
delay is beyond every span once jitter is added. -/
theorem unbuildable_longestDelays :
    Bus.longestDelays.validate = .ok () ∧ heldStore.HoldsClaim heldJob ∧
    (∃ detail, jobNode.registry.judgement heldJob = .handlerFailed detail) ∧
    countFailure heldJob.errorCount < Bus.longestDelays.maxFailureRetries ∧
    (jobNode.registry.judgement heldJob).nextEntry Bus.longestDelays (Bus.longestDelays.jitter 0.5)
      heldJob .epoch = none := by
  refine ⟨by decide +kernel, ⟨by decide, by decide⟩,
    ⟨(DispatchError.handler "job" "no").message, by decide +kernel⟩, by decide, by decide +kernel⟩

end DurableQueue
