import DurableQueue.Proofs.Time.Order
import DurableQueue.Retry.Policy

/-!
How the delays of a policy grow.

The delay without jitter is the base times the factor of the step, kept below the longest delay
(`RetryPolicy.backoff_nanos`), so it does not shrink from one step to a later one
(`RetryPolicy.backoff_mono`). Whatever jitter draws, the delay lies between the step and the next
(`RetryPolicy.delay_between`), and there is none only if the draw is beyond every span. A failed entry is
tried again that much later (`RetryPolicy.RetriesAt`), as long as its failures are below the limit.
-/

namespace DurableQueue.RetryPolicy

variable {p : RetryPolicy} {draw : Draw} {count j k : UInt32} {delay : Span} {failedAt t : Timestamp}

theorem factor_mono (strategy : BackoffStrategy) {m n : Nat} (h : m ≤ n) :
    factor strategy m ≤ factor strategy n := by
  cases strategy with
  | fixed => exact Nat.le_refl _
  | linear => exact h
  | exponential =>
    refine Nat.pow_le_pow_right (by decide) (Nat.le_min.mpr ⟨?_, Nat.min_le_right _ _⟩)
    exact Nat.le_trans (Nat.min_le_left _ _) (Nat.sub_le_sub_right h 1)

/-- Without jitter a delay is the multiple of the base, or the longest delay if that is shorter. -/
theorem backoff_nanos (p : RetryPolicy) (count : UInt32) :
    (p.backoff count).nanos =
      min (p.baseBackoff.nanos * factor p.strategy (max count.toNat 1)) p.maxBackoff.nanos := by
  unfold backoff Span.mul? Span.ofNanos?
  by_cases h : p.baseBackoff.nanos * factor p.strategy (Nat.max count.toNat 1) < Span.limit
  · rw [dif_pos h]
    exact Span.min_nanos _ _
  · -- a multiple beyond every span is beyond the longest delay too
    rw [dif_neg h]
    have hlongest := Nat.lt_of_lt_of_le p.maxBackoff.bounded (Nat.le_of_not_lt h)
    exact (Nat.min_eq_right (Nat.le_of_lt hlongest)).symm

theorem backoff_le (p : RetryPolicy) (count : UInt32) : p.backoff count ≤ p.maxBackoff := by
  rw [Span.le_def, backoff_nanos]
  exact Nat.min_le_right _ _

theorem backoff_mono (p : RetryPolicy) (h : j ≤ k) : p.backoff j ≤ p.backoff k := by
  rw [Span.le_def, backoff_nanos, backoff_nanos]
  have hstep : max j.toNat 1 ≤ max k.toNat 1 := by
    rw [UInt32.le_iff_toNat_le] at h
    omega
  have hfactor := Nat.mul_le_mul_left p.baseBackoff.nanos (factor_mono p.strategy hstep)
  omega

theorem backoff_le_next (p : RetryPolicy) (count : UInt32) :
    p.backoff count ≤ p.backoff (countFailure count) :=
  p.backoff_mono (UInt32.le_iff_toNat_le.mpr (le_countFailure count))

/-- Jitter keeps a delay between its step and the next one. -/
theorem delay_between (h : p.delay draw count = some delay) :
    p.backoff count ≤ delay ∧ delay ≤ p.backoff (countFailure count) := by
  have hnext := p.backoff_le_next count
  unfold RetryPolicy.delay at h
  simp only at h
  split at h
  · cases h
    exact ⟨Nat.le_refl _, hnext⟩
  · obtain ⟨drawn, -, rfl⟩ := Option.map_eq_some_iff.mp h
    unfold Span.clamp
    split
    · exact ⟨Nat.le_refl _, hnext⟩
    · rename_i hlow
      split
      · exact ⟨hnext, Nat.le_refl _⟩
      · rename_i hhigh
        exact ⟨Nat.le_of_not_lt hlow, Nat.le_of_not_lt hhigh⟩

/-- There is no delay only if jitter is to be added, has room to the next step, and is drawn beyond every
span. -/
theorem delay_eq_none_iff :
    p.delay draw count = none ↔ ¬ p.jitterFactor ≤ 0.0 ∧
      p.backoff count < p.backoff (countFailure count) ∧ draw (p.backoff count) = none := by
  unfold RetryPolicy.delay
  simp only
  by_cases h : p.jitterFactor ≤ 0.0 ∨ p.backoff (countFailure count) ≤ p.backoff count
  · rw [if_pos h]
    simp only [reduceCtorEq, false_iff]
    rintro ⟨hjitter, hroom, -⟩
    exact h.elim hjitter (Nat.not_le.mpr hroom)
  · rw [if_neg h, Option.map_eq_none_iff]
    rw [not_or] at h
    exact ⟨fun hnone => ⟨h.1, Nat.lt_of_not_le h.2, hnone⟩, fun hnone => hnone.2.2⟩

/-- When an entry is tried again that failed for the `count`-th time, if that is a time of the calendar. -/
def RetriesAt (p : RetryPolicy) (draw : Draw) (count : UInt32) (failedAt t : Timestamp) : Prop :=
  ∃ delay, p.delay draw count = some delay ∧ delay.CanShift ∧ failedAt.plus? delay = some t

theorem decide_eq_retry_iff :
    p.decide draw count failedAt = some (.retry t) ↔
      count < p.maxFailureRetries ∧ p.RetriesAt draw count failedAt t := by
  unfold RetryPolicy.decide RetriesAt
  by_cases hlimit : p.maxFailureRetries ≤ count
  · rw [if_pos hlimit]
    simp [UInt32.not_lt.mpr hlimit]
  · rw [if_neg hlimit, Option.map_eq_some_iff]
    simp only [UInt32.not_le.mp hlimit, true_and]
    refine exists_congr fun delay => and_congr_right fun _ => ?_
    by_cases hshift : delay.CanShift
    · cases hplus : failedAt.plus? delay <;> simp [hshift]
    · simp [hshift]

/-- Not before the delay of a step has passed since a failure, and not after that of the next one. -/
def IsBetweenSteps (p : RetryPolicy) (count : UInt32) (failedAt t : Timestamp) : Prop :=
  (∃ low, failedAt.plus? (p.backoff count) = some low ∧ low ≤ t) ∧
    ∀ high, failedAt.plus? (p.backoff (countFailure count)) = some high → t ≤ high

theorem RetriesAt.isBetweenSteps (h : p.RetriesAt draw count failedAt t) :
    p.IsBetweenSteps count failedAt t := by
  obtain ⟨delay, hdelay, -, ht⟩ := h
  obtain ⟨hlow, hhigh⟩ := delay_between hdelay
  refine ⟨Timestamp.exists_plus?_le hlow ht, fun high hnext => ?_⟩
  obtain ⟨u, hu, hle⟩ := Timestamp.exists_plus?_le hhigh hnext
  rw [ht] at hu
  exact Option.some.inj hu ▸ hle

end DurableQueue.RetryPolicy
