import DurableQueue.Proofs.Retry.Backoff
import Mathlib.Algebra.GroupWithZero.Nat

/-!
The delays of a policy against the formula of its strategy.

`RetryPolicy.idealNanos` is what the formula says, in numbers without bound. A delay is that number, kept
below the longest delay, unless the doubling stops too early (`RetryPolicy.FallsShort`): the base is
doubled 31 times and then no more, even if that is still less than the longest delay
(`RetryPolicy.backoff_formula`). Whatever is drawn as jitter, delays do not shrink and stay within their
bounds (`RetryPolicy.delays_never_shrink`).
-/

namespace DurableQueue.RetryPolicy

variable {p : RetryPolicy} {draw draw' : Draw} {count j k : UInt32} {delay delay' : Span}

/-- The delay after so many failures by the formula of the strategy, in nanoseconds. -/
def idealNanos (p : RetryPolicy) (count : Nat) : Nat :=
  match p.strategy with
  | .fixed => p.baseBackoff.nanos
  | .linear => p.baseBackoff.nanos * count
  | .exponential => p.baseBackoff.nanos * 2 ^ (count - 1)

/-- Doubling the base 31 times does not lead to the longest delay. -/
structure FallsShort (p : RetryPolicy) : Prop where
  doubles : p.strategy = .exponential
  positive : 0 < p.baseBackoff.nanos
  short : p.baseBackoff.nanos * 2 ^ 31 < p.maxBackoff.nanos

/-- Up to the 32nd failure the factor of a step is that of the formula. -/
theorem idealNanos_eq (hcount : 1 ≤ count) (h : p.strategy = .exponential → count.toNat ≤ 32) :
    p.idealNanos count.toNat = p.baseBackoff.nanos * factor p.strategy (max count.toNat 1) := by
  have hpos : max count.toNat 1 = count.toNat := Nat.max_eq_left (UInt32.le_iff_toNat_le.mp hcount)
  unfold idealNanos factor
  rw [hpos]
  cases hstrategy : p.strategy with
  | fixed => simp
  | linear => rfl
  | exponential =>
    have hle := h hstrategy
    have hexponent : Nat.min (count.toNat - 1) 31 = count.toNat - 1 := Nat.min_eq_left (by omega)
    rw [hexponent]
    rfl

/-- Beyond the 32nd failure doubling has stopped. -/
theorem factor_of_lt (hstrategy : p.strategy = .exponential) (h : 32 < count.toNat) :
    factor p.strategy (max count.toNat 1) = 2 ^ 31 := by
  have hexponent : Nat.min (max count.toNat 1 - 1) 31 = 31 := Nat.min_eq_right (by omega)
  rw [hstrategy, factor, hexponent]
  rfl

/-- By then the formula asks for at least twice as much. -/
theorem double_le_idealNanos (hstrategy : p.strategy = .exponential) (h : 32 < count.toNat) :
    2 * (p.baseBackoff.nanos * 2 ^ 31) ≤ p.idealNanos count.toNat := by
  have hpow : 2 ^ 32 ≤ 2 ^ (count.toNat - 1) := Nat.pow_le_pow_right (by decide) (by omega)
  have hmul := Nat.mul_le_mul_left p.baseBackoff.nanos hpow
  rw [idealNanos, hstrategy]
  simp only
  omega

/-- After any number of failures the delay is that of the formula, or the longest delay if that is shorter,
whatever the base and the longest delay are, except where doubling has stopped before it reached the
longest delay. There the delay stays at the base doubled 31 times. -/
theorem backoff_formula (p : RetryPolicy) (count : UInt32) (hcount : 1 ≤ count) :
    ((p.backoff count).nanos = min (p.idealNanos count.toNat) p.maxBackoff.nanos ↔
      ¬(p.FallsShort ∧ 32 < count.toNat)) ∧
    (p.FallsShort ∧ 32 < count.toNat → (p.backoff count).nanos = p.baseBackoff.nanos * 2 ^ 31) := by
  rw [backoff_nanos]
  by_cases hlate : p.strategy = .exponential ∧ 32 < count.toNat
  · obtain ⟨hstrategy, hlate⟩ := hlate
    have hideal := double_le_idealNanos hstrategy hlate
    rw [factor_of_lt hstrategy hlate]
    constructor
    · constructor
      · rintro heq ⟨hshort, -⟩
        have hpositive := hshort.positive
        have hless := hshort.short
        omega
      · intro hreaches
        -- a base of nothing stays nothing, and any other one was doubled up to the longest delay
        have hcap : ¬(0 < p.baseBackoff.nanos ∧ p.baseBackoff.nanos * 2 ^ 31 < p.maxBackoff.nanos) :=
          fun h => hreaches ⟨⟨hstrategy, h.1, h.2⟩, hlate⟩
        by_cases hzero : p.baseBackoff.nanos = 0
        · simp [idealNanos, hstrategy, hzero]
        · omega
    · rintro ⟨hshort, -⟩
      exact Nat.min_eq_left (Nat.le_of_lt hshort.short)
  · have hearly : p.strategy = .exponential → count.toNat ≤ 32 := by
      intro hstrategy
      by_contra hlt
      exact hlate ⟨hstrategy, by omega⟩
    have hnot : ¬(p.FallsShort ∧ 32 < count.toNat) := fun h => hlate ⟨h.1.doubles, h.2⟩
    rw [idealNanos_eq hcount hearly]
    exact ⟨iff_of_true rfl hnot, fun h => absurd h hnot⟩

/-- After 64 failures the standard policy waits for its longest delay; the formula says 2 ^ 63 seconds. -/
theorem backoff_formula_standard :
    (1 : UInt32) ≤ 64 ∧ standard.idealNanos 64 = 2 ^ 63 * nanosPerSecond ∧
      ¬(standard.FallsShort ∧ 32 < (64 : UInt32).toNat) ∧
      (standard.backoff 64).nanos = min (standard.idealNanos 64) standard.maxBackoff.nanos := by
  have hreaches : ¬(standard.FallsShort ∧ 32 < (64 : UInt32).toNat) :=
    fun h => absurd h.1.short (by decide)
  exact ⟨by decide, by decide, hreaches, (backoff_formula standard 64 (by decide)).1.mpr hreaches⟩

/-- Delays that begin with a nanosecond and may become a minute. -/
def slowStart : RetryPolicy :=
  { standard with baseBackoff := ⟨1, by decide⟩, maxBackoff := .ofSeconds 60, jitterFactor := 0.0 }

/-- With this policy the delay doubles for the last time after the 32nd failure: about two seconds are kept
from then on, whatever the formula says. -/
theorem backoff_stops_doubling :
    slowStart.validate = .ok () ∧
    (slowStart.backoff 32).nanos = 2147483648 ∧
    (slowStart.backoff 33).nanos = 2147483648 ∧
    min (slowStart.idealNanos 33) slowStart.maxBackoff.nanos = 4294967296 ∧
    (slowStart.backoff 4294967295).nanos = 2147483648 ∧ slowStart.maxBackoff.nanos = 60000000000 := by
  exact ⟨by rfl, by decide, by decide, by decide, by decide, by decide⟩

/-- Whatever jitter comes to, there is a delay. -/
theorem exists_delay (p : RetryPolicy) (count : UInt32) (drawn : Span) :
    ∃ delay, p.delay (fun _ => some drawn) count = some delay := by
  cases hdelay : p.delay (fun _ => some drawn) count with
  | none => exact absurd (delay_eq_none_iff.mp hdelay).2.2 (Option.some_ne_none drawn)
  | some delay => exact ⟨delay, rfl⟩

/-- The step after a count is not later than any greater count. -/
theorem countFailure_le_of_lt (h : j < k) : countFailure j ≤ k := by
  have hj := toNat_countFailure j
  rw [UInt32.lt_iff_toNat_lt] at h
  rw [UInt32.le_iff_toNat_le]
  omega

/-- A delay that is drawn for a count is not longer than one that is drawn for a greater count. -/
theorem delay_le_of_lt (h : j < k) (hj : p.delay draw j = some delay)
    (hk : p.delay draw' k = some delay') : delay ≤ delay' := by
  obtain ⟨-, hhigh⟩ := delay_between hj
  obtain ⟨hlow, -⟩ := delay_between hk
  have hsteps := p.backoff_mono (countFailure_le_of_lt h)
  rw [Span.le_def] at *
  omega

/-- Delays do not shrink and stay below the longest one, for every policy, valid or not, and whatever jitter
comes to before it is kept within its bounds. These bounds are in order. -/
theorem delays_never_shrink (p : RetryPolicy) :
    (∀ count drawn, ∃ delay, p.delay (fun _ => some drawn) count = some delay) ∧
    (∀ count, p.backoff count ≤ p.backoff (countFailure count)) ∧
    (∀ draw count delay, p.delay draw count = some delay →
      p.backoff count ≤ delay ∧ delay ≤ p.backoff (countFailure count) ∧
        p.backoff (countFailure count) ≤ p.maxBackoff) ∧
    ∀ draw draw' j k delay delay', j < k → p.delay draw j = some delay → p.delay draw' k = some delay' →
      delay ≤ delay' := by
  refine ⟨p.exists_delay, p.backoff_le_next, ?_, ?_⟩
  · intro draw count delay hdelay
    obtain ⟨hlow, hhigh⟩ := delay_between hdelay
    exact ⟨hlow, hhigh, p.backoff_le _⟩
  · intro draw draw' j k delay delay' hlt hj hk
    exact delay_le_of_lt hlt hj hk

/-- After one failure jitter comes to nothing, and after two to more than the next step: the first delay is
kept at its step, and the second one at the step after it. -/
theorem delays_never_shrink_standard :
    standard.delay (fun _ => some .zero) 1 = some (.ofSeconds 1) ∧
    standard.delay (fun _ => some .max) 2 = some (.ofSeconds 4) ∧
    standard.backoff 2 ≤ .ofSeconds 4 ∧ Span.ofSeconds 4 ≤ standard.maxBackoff ∧
    Span.ofSeconds 1 ≤ .ofSeconds 4 := by
  obtain ⟨-, -, hbounds, hmono⟩ := standard.delays_never_shrink
  have hfirst : standard.delay (fun _ => some .zero) 1 = some (.ofSeconds 1) := by decide +kernel
  have hsecond : standard.delay (fun _ => some .max) 2 = some (.ofSeconds 4) := by decide +kernel
  obtain ⟨hlow, hhigh, hcap⟩ := hbounds _ _ _ hsecond
  exact ⟨hfirst, hsecond, hlow, Nat.le_trans hhigh hcap, hmono _ _ 1 2 _ _ (by decide) hfirst hsecond⟩

end DurableQueue.RetryPolicy
