import DurableQueue.Proofs.Retry.Delays
import DurableQueue.Proofs.Time.Later

/-!
What is decided about a failed entry.

An entry is tried again if it failed fewer times than the limit, its delay is not too long for a clock,
and the time of the next attempt is in the calendar (`RetryPolicy.Allows`). There is a decision unless a
delay is asked for that cannot be drawn (`RetryPolicy.decide_eq_none_iff`). Decisions follow the order of
the failures (`RetryPolicy.decisions_exact`): once given up, given up ever after, and later times otherwise.
-/

namespace DurableQueue.RetryPolicy

variable {p : RetryPolicy} {draw draw' : Draw} {count j k : UInt32} {delay : Span} {failedAt t u : Timestamp}
  {reason : GiveUp}

/-- After such a delay an entry may be tried again. -/
structure Allows (p : RetryPolicy) (count : UInt32) (delay : Span) (failedAt : Timestamp) : Prop where
  below : count < p.maxFailureRetries
  shifts : delay.CanShift
  reaches : failedAt.nanos + delay.nanos ≤ Timestamp.latest.nanos

/-- At the limit nothing is drawn. -/
theorem decide_of_limit (h : p.maxFailureRetries ≤ count) :
    p.decide draw count failedAt = some (.giveUp (.limitReached p.maxFailureRetries)) :=
  if_pos h

/-- There is no decision only if a delay is asked for that cannot be drawn. -/
theorem decide_eq_none_iff :
    p.decide draw count failedAt = none ↔ count < p.maxFailureRetries ∧ p.delay draw count = none := by
  unfold decide
  by_cases hlimit : p.maxFailureRetries ≤ count
  · simp [hlimit, UInt32.not_lt.mpr hlimit]
  · simp [hlimit, UInt32.not_le.mp hlimit]

/-- A delay that is allowed leads to the time that is exactly so much later. -/
theorem decide_of_allows (hdelay : p.delay draw count = some delay) (h : p.Allows count delay failedAt) :
    ∃ t, p.decide draw count failedAt = some (.retry t) ∧ failedAt.IsLaterBy delay t := by
  cases ht : failedAt.plus? delay with
  | none =>
    have hlate := Timestamp.plus?_eq_none_iff.mp ht
    exact absurd h.reaches (Int.not_le.mpr hlate)
  | some t =>
    exact ⟨t, decide_eq_retry_iff.mpr ⟨h.below, delay, hdelay, h.shifts, ht⟩,
      Timestamp.plus?_eq_some_iff.mp ht⟩

theorem allows_of_decide (h : p.decide draw count failedAt = some (.retry t)) :
    ∃ delay, p.delay draw count = some delay ∧ p.Allows count delay failedAt ∧
      failedAt.IsLaterBy delay t := by
  obtain ⟨hbelow, delay, hdelay, hshift, ht⟩ := decide_eq_retry_iff.mp h
  refine ⟨delay, hdelay, ⟨hbelow, hshift, ?_⟩, Timestamp.plus?_eq_some_iff.mp ht⟩
  by_contra hlate
  have hnone := Timestamp.plus?_eq_none_iff.mpr (Int.not_le.mp hlate)
  rw [ht] at hnone
  cases hnone

/-- A decision that is not a retry gives a reason. -/
theorem exists_giveUp (hsome : p.decide draw count failedAt ≠ none)
    (h : ∀ t, p.decide draw count failedAt ≠ some (.retry t)) :
    ∃ reason, p.decide draw count failedAt = some (.giveUp reason) := by
  cases hdecision : p.decide draw count failedAt with
  | none => exact absurd hdecision hsome
  | some decision =>
    cases decision with
    | retry t => exact absurd hdecision (h t)
    | giveUp reason => exact ⟨reason, rfl⟩

/-- Any other delay is given up. -/
theorem decide_of_not_allows (hdelay : p.delay draw count = some delay) (h : ¬p.Allows count delay failedAt) :
    ∃ reason, p.decide draw count failedAt = some (.giveUp reason) := by
  refine exists_giveUp ?_ ?_
  · intro hnone
    have hdelay' := (decide_eq_none_iff.mp hnone).2
    rw [hdelay] at hdelay'
    cases hdelay'
  · intro t hretry
    obtain ⟨delay', hdelay', hallows, -⟩ := allows_of_decide hretry
    rw [hdelay] at hdelay'
    exact h (Option.some.inj hdelay' ▸ hallows)

/-- A longer delay is not allowed after more failures unless the shorter one is. -/
theorem Allows.of_lt {delay' : Span} (h : p.Allows k delay' failedAt) (hlt : j < k) (hle : delay ≤ delay') :
    p.Allows j delay failedAt := by
  have hshifts : delay'.nanos ≤ Span.longestShift := h.shifts
  have hreaches := h.reaches
  rw [Span.le_def] at hle
  constructor
  · exact UInt32.lt_trans hlt h.below
  · exact Nat.le_trans hle hshifts
  · omega

/-- An entry that would be tried again after more failures is tried again after fewer, and not later. -/
theorem decide_of_lt (hlt : j < k) (hk : p.decide draw' k failedAt = some (.retry u))
    (hj : p.decide draw j failedAt ≠ none) : ∃ t, p.decide draw j failedAt = some (.retry t) ∧ t ≤ u := by
  obtain ⟨delay', hdelay', hallows, hu⟩ := allows_of_decide hk
  cases hdelay : p.delay draw j with
  | none => exact absurd (decide_eq_none_iff.mpr ⟨UInt32.lt_trans hlt hallows.below, hdelay⟩) hj
  | some delay =>
    have hle := delay_le_of_lt hlt hdelay hdelay'
    obtain ⟨t, hretry, ht⟩ := decide_of_allows hdelay (hallows.of_lt hlt hle)
    obtain ⟨t', ht', hle'⟩ := Timestamp.exists_plus?_le hle (Timestamp.plus?_eq_some_iff.mpr hu)
    rw [Timestamp.plus?_eq_some_iff.mpr ht] at ht'
    exact ⟨t, hretry, Option.some.inj ht' ▸ hle'⟩

/-- Decisions keep to their limits, for every policy and whatever is drawn: at the limit, or if the delay is
too long for a clock or the calendar, the entry is given up, and otherwise it is tried again exactly the
delay later, never before it failed. What was given up after some failures is given up after more of them,
unless no delay can be drawn for these, and of two retries the one after more failures is not the earlier. -/
theorem decisions_exact (p : RetryPolicy) (failedAt : Timestamp) :
    (∀ draw count delay, p.delay draw count = some delay →
      (p.Allows count delay failedAt → ∃ t, p.decide draw count failedAt = some (.retry t) ∧
        failedAt.IsLaterBy delay t ∧ failedAt ≤ t) ∧
      (¬p.Allows count delay failedAt → ∃ reason, p.decide draw count failedAt = some (.giveUp reason))) ∧
    (∀ draw count, p.maxFailureRetries ≤ count →
      p.decide draw count failedAt = some (.giveUp (.limitReached p.maxFailureRetries))) ∧
    (∀ draw count, p.decide draw count failedAt = none ↔
      count < p.maxFailureRetries ∧ ¬p.jitterFactor ≤ 0.0 ∧
        p.backoff count < p.backoff (countFailure count) ∧ draw (p.backoff count) = none) ∧
    (∀ draw draw' j k reason, j < k → p.decide draw j failedAt = some (.giveUp reason) →
      p.decide draw' k failedAt ≠ none → ∃ reason', p.decide draw' k failedAt = some (.giveUp reason')) ∧
    ∀ draw draw' j k t u, j < k → p.decide draw j failedAt = some (.retry t) →
      p.decide draw' k failedAt = some (.retry u) → t ≤ u := by
  refine ⟨?_, fun _ _ => decide_of_limit, ?_, ?_, ?_⟩
  · intro draw count delay hdelay
    refine ⟨fun hallows => ?_, decide_of_not_allows hdelay⟩
    obtain ⟨t, hretry, ht⟩ := decide_of_allows hdelay hallows
    exact ⟨t, hretry, ht, ht.le⟩
  · intro draw count
    rw [decide_eq_none_iff, delay_eq_none_iff]
  · intro draw draw' j k reason hlt hj hk
    refine exists_giveUp hk fun u hretry => ?_
    obtain ⟨t, ht, -⟩ := decide_of_lt hlt hretry (by rw [hj]; exact Option.some_ne_none _)
    rw [hj] at ht
    cases ht
  · intro draw draw' j k t u hlt hj hk
    obtain ⟨t', ht', hle⟩ := decide_of_lt hlt hk (by rw [hj]; exact Option.some_ne_none _)
    rw [hj] at ht'
    cases ht'
    exact hle

/-- The second before the last one of the calendar. -/
def secondToLast : Timestamp :=
  { Timestamp.epoch with
    second := Timestamp.lastSecond - 1
    notBefore := by decide
    notAfter := by decide }

/-- A second before the end of the calendar an entry is tried again after its first failure, and given up
after its second one, for its delay is longer. -/
theorem decisions_exact_secondToLast :
    standard.Allows 1 (.ofSeconds 1) secondToLast ∧ ¬standard.Allows 2 (.ofSeconds 2) secondToLast ∧
    (∃ t, standard.decide some 1 secondToLast = some (.retry t) ∧ secondToLast ≤ t ∧
      t.second = Timestamp.lastSecond) ∧
    (∃ reason, standard.decide some 2 secondToLast = some (.giveUp reason)) ∧
    ∃ reason, standard.decide some 3 secondToLast = some (.giveUp reason) := by
  obtain ⟨hexact, -, hnone, hever, -⟩ := standard.decisions_exact secondToLast
  have hallows : standard.Allows 1 (.ofSeconds 1) secondToLast := ⟨by decide, by decide, by decide⟩
  have hlate : ¬standard.Allows 2 (.ofSeconds 2) secondToLast := fun h => absurd h.reaches (by decide)
  have hfirst : standard.delay some 1 = some (.ofSeconds 1) := by decide +kernel
  have hsecond : standard.delay some 2 = some (.ofSeconds 2) := by decide +kernel
  obtain ⟨t, hretry, ht, hle⟩ := (hexact _ _ _ hfirst).1 hallows
  obtain ⟨reason, hgiven⟩ := (hexact _ _ _ hsecond).2 hlate
  have hthird : standard.decide some 3 secondToLast ≠ none := by
    rw [Ne, hnone]
    exact fun h => absurd h.2.2.2 (Option.some_ne_none _)
  refine ⟨hallows, hlate, ⟨t, hretry, hle, ?_⟩, ⟨reason, hgiven⟩,
    hever _ _ 2 3 reason (by decide) hgiven hthird⟩
  have hparts := (Timestamp.isLaterBy_iff_of_not_stays (by decide)).mp ht
  exact hparts.1

/-- Delays that grow by nearly half of the longest span. -/
def hugeSteps : RetryPolicy :=
  { standard with baseBackoff := .ofSeconds 9223372036854775708, maxBackoff := .max, strategy := .linear }

/-- With this policy an entry is given up after its first failure, for its delay is too long, and after its
second failure there is no decision: once jitter is added the delay is beyond every span. -/
theorem undecided_hugeSteps :
    hugeSteps.validate = .ok () ∧
    hugeSteps.decide (hugeSteps.jitter 0.5) 1 .epoch = some (.giveUp .delayOutOfRange) ∧
    hugeSteps.decide (hugeSteps.jitter 0.5) 2 .epoch = none := by
  exact ⟨by rfl, by decide +kernel, by decide +kernel⟩

end DurableQueue.RetryPolicy
