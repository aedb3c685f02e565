import DurableQueue.Proofs.Dispatch.Foreground
import DurableQueue.Proofs.Dispatch.Settlement

/-!
Every attempt is accounted for.

`Bus.attempts_accounted` covers any number of dispatchers that process in the foreground, in any
interleaving with claims, reaps, releases and purges of others and with failures of the store. What is
claimed is counted, in hand, or left by a call that broke down. A call breaks down only over a retry whose
drawn delay is beyond every span; then its claims are never counted (`Bus.attempt_uncounted`).
-/

namespace DurableQueue.Bus

variable {u : Conduct} {b : Bus} {log : List ProcessEvent}

/-- What holds of a run in the foreground and of what it told. -/
structure IsAccounted (u : Conduct) (b : Bus) (log : List ProcessEvent) : Prop where
  foreground : b.IsForeground u
  coursed : Coursed b.calls log
  balanced : Balanced b.books.tallies b.calls log
  settlement : u.leavesUpdates → Settlement b.books.tallies b.calls b.hub.store
  unbroken : u.longest ≠ none → ∀ i k claims, .brokeDown i k claims ∉ log

theorem isAccounted_startingAt (u : Conduct) (start : Timestamp) :
    (startingAt start).IsAccounted u [] where
  foreground := ⟨by simp [startingAt], by simp [startingAt], rfl⟩
  coursed := ⟨by simp [startingAt], fun _ _ => rfl⟩
  balanced := by
    have htally : ∀ k, tallyAt (startingAt start).books.tallies k = .zero := fun _ => rfl
    refine ⟨fun k => ?_, fun k v => ?_, fun k => ?_⟩
    · rw [htally]
      rfl
    · rw [htally]
      cases v <;> rfl
    · rw [htally]
      rfl
  settlement _ := ⟨Store.isWellFormed_empty, fun _ _ _ _ => rfl⟩
  unbroken _ _ _ _ h := by cases h

/-- A call breaks down only if no longest delay is known. -/
theorem not_brokeDown_of_posting {books books' : Books} {more : List ProcessEvent}
    (hp : Posting u books more books') (hlongest : u.longest ≠ none) (i k : Nat)
    (claims : List Entry) : .brokeDown i k claims ∉ more := by
  intro hmem
  cases hp with
  | brokeDown s hi hk opened unknown => exact hlongest unknown
  | _ => simp at hmem

theorem IsAccounted.act (h : b.IsAccounted u log) {x : BusAction} (hx : x.IsForeground)
    (hfollows : x.Follows u) : (b.act x).IsAccounted u (log ++ b.told x) := by
  obtain ⟨hposting, hforeground⟩ := posting_act h.foreground hx hfollows
  have hcounted := h.coursed.not_uncounted hposting
  refine ⟨hforeground, h.coursed.posting hposting, h.balanced.posting hposting hcounted,
    fun hleaves => (h.settlement hleaves).posting hleaves hposting hcounted,
    fun hlongest i k claims hmem => ?_⟩
  rcases List.mem_append.mp hmem with hold | hnew
  · exact h.unbroken hlongest i k claims hold
  · exact not_brokeDown_of_posting hposting hlongest i k claims hnew

theorem IsAccounted.run (h : b.IsAccounted u log) {actions : List BusAction}
    (hforeground : ∀ x ∈ actions, x.IsForeground) (hfollows : ∀ x ∈ actions, x.Follows u) :
    (b.run actions).IsAccounted u (log ++ b.ledger actions) := by
  induction actions generalizing b log with
  | nil =>
    rw [ledger, List.append_nil]
    exact h
  | cons x rest ih =>
    obtain ⟨hx, hforeground⟩ := List.forall_mem_cons.mp hforeground
    obtain ⟨hfollow, hfollows⟩ := List.forall_mem_cons.mp hfollows
    have hnext := ih (h.act hx hfollow) hforeground hfollows
    rw [List.append_assoc] at hnext
    exact hnext

/-- The counters of all dispatchers, against what was told of the calls. -/
structure Accounts (b : Bus) (log : List ProcessEvent) : Prop where
  /-- A call takes one claim after the other, and each is counted as the store had it. -/
  told : ∀ (i : Nat) (c : Call), b.calls[i]? = some c → c.HasTold i log
  counted : ∀ (k : Nat) (n : Node), b.nodes[k]? = some n → ∀ v,
    n.stats.counter v = log.countP (·.isCounted k v)
  inFlight : ∀ (k : Nat) (n : Node), b.nodes[k]? = some n →
    n.stats.inFlight = b.calls.countP (·.isAttemptOf k)
  claimed : ∀ (k : Nat) (n : Node), b.nodes[k]? = some n →
    n.stats.claimed = n.stats.processed + n.stats.retried + n.stats.failed + n.stats.lostRaces +
      n.stats.storeErrors + (b.calls.map (·.inHand k)).sum + leftBy k log

/-- All dispatchers together counted the processed and the failed entries of the store. -/
def Agrees (b : Bus) : Prop :=
  (b.nodes.map (·.stats.processed)).sum = b.hub.store.settled .processed ∧
    (b.nodes.map (·.stats.failed)).sum = b.hub.store.settled .failed

/-- No call broke down, and none left claims behind. -/
def LeavesNothing (b : Bus) (log : List ProcessEvent) : Prop :=
  (∀ c ∈ b.calls, c.phase ≠ .brokenDown) ∧ ∀ k, leftBy k log = 0

theorem IsAccounted.accounts (h : b.IsAccounted u log) : b.Accounts log := by
  have htally : ∀ (k : Nat) (n : Node), b.nodes[k]? = some n →
      tallyAt b.books.tallies k = n.stats.tally := fun k n hk =>
    tallyAt_of_getElem? (getElem?_talliesOf hk)
  refine ⟨h.coursed.told, fun k n hk v => ?_, fun k n hk => ?_, fun k n hk => ?_⟩
  · rw [← h.balanced.counted, htally k n hk]
    cases v <;> rfl
  · rw [← h.balanced.inFlight, htally k n hk]
    rfl
  · have hclaimed := h.balanced.claimed k
    rw [htally k n hk] at hclaimed
    exact hclaimed

theorem IsAccounted.agrees (h : b.IsAccounted u log) (hleaves : u.leavesUpdates)
    (hbooking : ∀ c ∈ b.calls, ∀ v, c.isBooking v = false) : b.Agrees := by
  have hnone : ∀ v, b.calls.countP (·.isBooking v) = 0 := fun v =>
    List.countP_eq_zero.mpr fun c hc => by simp [hbooking c hc v]
  have hsettled := (h.settlement hleaves).settled
  have hprocessed := hsettled .processed .processed rfl rfl
  have hfailed := hsettled .failed .failed rfl rfl
  rw [hnone, Nat.add_zero, books, List.map_map] at hprocessed hfailed
  exact ⟨hprocessed, hfailed⟩

theorem IsAccounted.leavesNothing (h : b.IsAccounted u log) (hlongest : u.longest ≠ none) :
    b.LeavesNothing log := by
  have hunbroken := h.unbroken hlongest
  constructor
  · intro c hc hphase
    obtain ⟨i, hi⟩ := List.getElem?_of_mem hc
    obtain ⟨k, -, htold⟩ := h.coursed.told i c hi
    obtain ⟨claims, hmem⟩ := (hphase ▸ htold).brokeDown_mem
    exact hunbroken i k claims (List.mem_filter.mp hmem).1
  · intro k
    refine List.sum_eq_zero_iff_forall_eq_nat.mpr fun left hleft => ?_
    obtain ⟨event, hevent, rfl⟩ := List.mem_map.mp hleft
    cases event with
    | brokeDown i k' claims => exact absurd hevent (hunbroken i k' claims)
    | _ => rfl

/-- Whatever dispatchers do in the foreground, among what others do and while the store may fail: every
attempt is counted once, as the store then has it; the attempts in progress are in flight; and what was
claimed is counted, in hand, or left by a call that broke down. If only dispatchers resolve claims, and
none stands between its update and its counter, they counted what the store holds. If jitter is drawn for
all delays up to the longest, no call breaks down. -/
theorem attempts_accounted (start : Timestamp) (actions : List BusAction)
    (hforeground : ∀ x ∈ actions, x.IsForeground) :
    ((startingAt start).run actions).Accounts ((startingAt start).ledger actions) ∧
      ((∀ x ∈ actions, x.LeavesUpdates) →
        (∀ c ∈ ((startingAt start).run actions).calls, ∀ v, c.isBooking v = false) →
        ((startingAt start).run actions).Agrees) ∧
      ∀ longest, (∀ x ∈ actions, x.DrawsUpTo longest) →
        ((startingAt start).run actions).LeavesNothing ((startingAt start).ledger actions) := by
  have haccounted (u : Conduct) (hfollows : ∀ x ∈ actions, x.Follows u) :=
    (isAccounted_startingAt u start).run hforeground hfollows
  simp only [List.nil_append] at haccounted
  refine ⟨?_, fun hleaves => ?_, fun longest hdraws => ?_⟩
  · exact (haccounted ⟨False, none⟩ fun x _ => ⟨False.elim, nofun⟩).accounts
  · exact (haccounted ⟨True, none⟩ fun x hx => ⟨fun _ => hleaves x hx, nofun⟩).agrees trivial
  · have hfollows : ∀ x ∈ actions, x.Follows ⟨False, some longest⟩ := fun x hx =>
      ⟨False.elim, fun _ heq => Option.some.inj heq ▸ hdraws x hx⟩
    exact (haccounted _ hfollows).leavesNothing (by simp)

/-- A handler that takes the jobs that are true. -/
def jobHandler : Handler :=
  ⟨⟨"job", .bool⟩, fun _ event _ =>
    match event with
    | .bool true => ⟨[], .succeeded⟩
    | _ => ⟨[], .failed "no"⟩⟩

theorem does_jobHandler (P : Effect → Prop) : (Registry.ofList [jobHandler]).Does P := by
  intro h hh deliveries event context effect heffect
  obtain rfl := List.mem_singleton.mp (show h ∈ [⟨jobHandler, []⟩] from hh)
  simp only [jobHandler] at heffect
  split at heffect
  · cases heffect
  · cases heffect

def trueJob : BusAction := .operate (.append ⟨⟨"job", [116, 114, 117, 101]⟩, ⟨"a"⟩, .none⟩)

def falseJob : BusAction := .operate (.append ⟨⟨"job", [102, 97, 108, 115, 101]⟩, ⟨"a"⟩, .none⟩)

/-- A dispatcher claims four jobs. The first is processed, the second is retried, the third is handed
back before its update, and the fourth is in progress. -/
def fourJobsRun : List BusAction :=
  let step : BusAction := .task (.call 0) fun _ s => some s
  [.add ⟨"a"⟩ .standard (.ofList [jobHandler]) .shared false, trueJob, falseJob, falseJob, falseJob,
    .process 0, step, step, step, step, step, step, step, step, step, step, step, step,
    .operate (.release ⟨"a"⟩), step, step, step, step, step]

theorem isForeground_fourJobsRun : ∀ x ∈ fourJobsRun, x.IsForeground := by
  simp [fourJobsRun, trueJob, falseJob, BusAction.IsForeground]

theorem leavesUpdates_fourJobsRun : ∀ x ∈ fourJobsRun, x.LeavesUpdates := by
  simp [fourJobsRun, trueJob, falseJob, BusAction.LeavesUpdates, does_jobHandler, StoreOp.isUpdate]

theorem drawsUpTo_fourJobsRun : ∀ x ∈ fourJobsRun, x.DrawsUpTo (.ofSeconds 300) := by
  have hbackoff : DispatchConfig.standard.retryPolicy.maxBackoff ≤ .ofSeconds 300 := by decide
  simp [fourJobsRun, trueJob, falseJob, BusAction.DrawsUpTo, Draw.answersUpTo_some, hbackoff]

/-- Of four claims one was processed, one retried, one lost, and one is in hand. -/
theorem attempts_accounted_fourJobsRun :
    (∀ x ∈ fourJobsRun, x.IsForeground) ∧ (∀ x ∈ fourJobsRun, x.LeavesUpdates) ∧
    (∀ x ∈ fourJobsRun, x.DrawsUpTo (.ofSeconds 300)) ∧
    (((startingAt .epoch).run fourJobsRun).nodes.map fun n =>
      (n.stats.claimed, n.stats.processed, n.stats.retried, n.stats.lostRaces, n.stats.inFlight)) =
      [(4, 1, 1, 1, 1)] ∧
    ((startingAt .epoch).run fourJobsRun).Accounts ((startingAt .epoch).ledger fourJobsRun) ∧
    ((startingAt .epoch).run fourJobsRun).Agrees ∧
    ((startingAt .epoch).run fourJobsRun).LeavesNothing ((startingAt .epoch).ledger fourJobsRun) := by
  obtain ⟨haccounts, hagrees, hnothing⟩ :=
    attempts_accounted .epoch fourJobsRun isForeground_fourJobsRun
  refine ⟨isForeground_fourJobsRun, leavesUpdates_fourJobsRun, drawsUpTo_fourJobsRun,
    by decide +kernel, haccounts, hagrees leavesUpdates_fourJobsRun ?_,
    hnothing _ drawsUpTo_fourJobsRun⟩
  have hbooking : (((startingAt .epoch).run fourJobsRun).calls.all fun c =>
      [Verdict.processed, .retried, .failed, .lostRace, .storeError, .uncounted].all
        fun v => !c.isBooking v) = true := by decide +kernel
  intro c hc v
  have hverdicts := List.all_eq_true.mp (List.all_eq_true.mp hbooking c hc) v (by cases v <;> simp)
  simpa using hverdicts

/-- Delays that reach beyond the last whole second of all spans. -/
def longestDelays : RetryPolicy :=
  { RetryPolicy.standard with baseBackoff := .ofSeconds 18446744073709551615, maxBackoff := .max }

/-- A dispatcher that waits for so long after a failure claims one job. Jitter is drawn as its policy
says. -/
def longestDelaysRun : List BusAction :=
  let step : BusAction := .task (.call 0) fun _ => longestDelays.jitter 0.5
  [.add ⟨"a"⟩ { DispatchConfig.standard with retryPolicy := longestDelays }
      (.ofList [jobHandler]) .shared false, falseJob, .process 0, step, step, step, step]

/-- The delay of this policy is beyond every span once jitter is added. The call breaks down over it, and
its claim is neither counted nor in hand. -/
theorem attempt_uncounted :
    longestDelays.validate = .ok () ∧
    (∀ x ∈ longestDelaysRun, x.IsForeground ∧ x.LeavesUpdates) ∧
    ((startingAt .epoch).run longestDelaysRun).results = [.panicked] ∧
    (((startingAt .epoch).run longestDelaysRun).nodes.map fun n =>
      (n.stats.claimed, n.stats.attempts, n.stats.inFlight)) = [(1, 0, 0)] ∧
    (((startingAt .epoch).run longestDelaysRun).calls.map (·.inHand 0)).sum = 0 ∧
    (((startingAt .epoch).run longestDelaysRun).hub.store.live.map (·.state)) =
      [.inProcessing] := by
  refine ⟨by decide +kernel, ?_, by decide +kernel, by decide +kernel, by decide +kernel,
    by decide +kernel⟩
  simp [longestDelaysRun, falseJob, BusAction.IsForeground, BusAction.LeavesUpdates, does_jobHandler,
    StoreOp.isUpdate]

end DurableQueue.Bus
