import DurableQueue.Proofs.Time.Order

/-!
The time that is exactly a span later.

`Timestamp.nanos` numbers the nanoseconds of the calendar, a leap second together with the second that it
goes with. `Timestamp.IsLaterBy` says which time is a span later than another, and `plus?_eq_some_iff` and
`plus?_eq_none_iff` that a sum is this time, unless it is beyond the last second of the calendar.
-/

namespace DurableQueue.Timestamp

variable {t u : Timestamp} {s : Span}

/-- Nanoseconds since the epoch; a leap second has the same ones as the second before it. -/
def nanos (t : Timestamp) : Int := t.second * nanosPerSecond + (t.fraction % nanosPerSecond : Nat)

/-- The time a span later. A leap second goes on for as long as the span does not lead out of it. -/
structure IsLaterBy (t : Timestamp) (s : Span) (u : Timestamp) : Prop where
  nanos : u.nanos = t.nanos + s.nanos
  isLeap : u.isLeap = true ↔ t.isLeap = true ∧ t.fraction + s.nanos < 2 * nanosPerSecond

theorem ofParts?_eq_some_iff {second : Int} {fraction : Nat} :
    ofParts? second fraction = some u ↔ u.second = second ∧ u.fraction = fraction := by
  constructor
  · exact ofParts?_eq_some
  · rintro ⟨rfl, rfl⟩
    exact dif_pos ⟨u.notBefore, u.notAfter, u.fraction_lt⟩

/-- The sum is in the leap second that it starts from. -/
def StaysInLeap (t : Timestamp) (s : Span) : Prop :=
  nanosPerSecond ≤ t.fraction ∧ s.nanos < nanosPerSecond ∧ t.fraction + s.nanos < 2 * nanosPerSecond

instance : Decidable (t.StaysInLeap s) :=
  inferInstanceAs (Decidable (_ ∧ _))

theorem plus?_eq (t : Timestamp) (s : Span) :
    t.plus? s =
      if t.StaysInLeap s then
        ofParts? t.second (t.fraction + s.nanos)
      else
        ofParts? (t.second + ((t.fraction % nanosPerSecond + s.nanos) / nanosPerSecond : Nat))
          ((t.fraction % nanosPerSecond + s.nanos) % nanosPerSecond) :=
  shift?_natCast t s.nanos

/-- Within a leap second the span is added to the fraction. -/
theorem isLaterBy_iff_of_stays (h : t.StaysInLeap s) :
    t.IsLaterBy s u ↔ u.second = t.second ∧ u.fraction = t.fraction + s.nanos := by
  obtain ⟨hleap, hspan, hwithin⟩ := h
  have hbound := u.fraction_lt
  simp only [nanosPerSecond] at *
  constructor
  · rintro ⟨hnanos, hleap'⟩
    rw [isLeap_iff, isLeap_iff] at hleap'
    simp only [Timestamp.nanos, nanosPerSecond] at *
    omega
  · rintro ⟨hsecond, hfraction⟩
    constructor
    · simp only [Timestamp.nanos, nanosPerSecond]
      omega
    · rw [isLeap_iff, isLeap_iff]
      simp only [nanosPerSecond]
      omega

/-- Any other sum has its nanoseconds carried into the seconds. -/
theorem isLaterBy_iff_of_not_stays (h : ¬t.StaysInLeap s) :
    t.IsLaterBy s u ↔ u.second = t.second + ((t.fraction % nanosPerSecond + s.nanos) / nanosPerSecond : Nat) ∧
      u.fraction = (t.fraction % nanosPerSecond + s.nanos) % nanosPerSecond := by
  have hbound := t.fraction_lt
  have hbound' := u.fraction_lt
  simp only [StaysInLeap, nanosPerSecond] at *
  constructor
  · rintro ⟨hnanos, hleap⟩
    rw [isLeap_iff, isLeap_iff] at hleap
    simp only [Timestamp.nanos, nanosPerSecond] at *
    omega
  · rintro ⟨hsecond, hfraction⟩
    constructor
    · simp only [Timestamp.nanos, nanosPerSecond]
      omega
    · rw [isLeap_iff, isLeap_iff]
      simp only [nanosPerSecond]
      omega

/-- A sum is the time that is exactly the span later. -/
theorem plus?_eq_some_iff : t.plus? s = some u ↔ t.IsLaterBy s u := by
  rw [plus?_eq]
  by_cases hstays : t.StaysInLeap s
  · rw [isLaterBy_iff_of_stays hstays, if_pos hstays]
    exact ofParts?_eq_some_iff
  · rw [isLaterBy_iff_of_not_stays hstays, if_neg hstays]
    exact ofParts?_eq_some_iff

/-- There is no sum exactly if it would be later than the last nanosecond of the calendar. -/
theorem plus?_eq_none_iff : t.plus? s = none ↔ latest.nanos < t.nanos + s.nanos := by
  have hfirst := t.notBefore
  have hlast := t.notAfter
  have hbound := t.fraction_lt
  have hlatest : latest.nanos = lastSecond * nanosPerSecond + 999999999 := by decide
  constructor
  · intro hnone
    by_contra hle
    rw [hlatest] at hle
    rw [plus?_eq] at hnone
    -- within the calendar the parts of the sum make a time
    by_cases hstays : t.StaysInLeap s
    · obtain ⟨v, hv, -⟩ := exists_ofParts? hfirst hlast hstays.2.2
      rw [if_pos hstays, hv] at hnone
      cases hnone
    · have hge : firstSecond ≤ t.second + ((t.fraction % nanosPerSecond + s.nanos) / nanosPerSecond : Nat) :=
        Int.le_trans hfirst (Int.le_add_of_nonneg_right (Int.natCast_nonneg _))
      have hle : t.second + ((t.fraction % nanosPerSecond + s.nanos) / nanosPerSecond : Nat) ≤ lastSecond := by
        simp only [nanosPerSecond, Timestamp.nanos] at *
        omega
      have hcarried : (t.fraction % nanosPerSecond + s.nanos) % nanosPerSecond < 2 * nanosPerSecond := by
        simp only [nanosPerSecond] at *
        omega
      obtain ⟨v, hv, -⟩ := exists_ofParts? hge hle hcarried
      rw [if_neg hstays, hv] at hnone
      cases hnone
  · intro hlate
    cases hsum : t.plus? s with
    | none => rfl
    | some u =>
      have hnanos := (plus?_eq_some_iff.mp hsum).nanos
      have hnotAfter := u.notAfter
      rw [hlatest] at hlate
      simp only [Timestamp.nanos, nanosPerSecond] at *
      omega

/-- No sum is earlier than the time that it started from. -/
theorem IsLaterBy.le (h : t.IsLaterBy s u) : t ≤ u := by
  rw [le_iff]
  by_cases hstays : t.StaysInLeap s
  · obtain ⟨hsecond, hfraction⟩ := (isLaterBy_iff_of_stays hstays).mp h
    omega
  · obtain ⟨hsecond, hfraction⟩ := (isLaterBy_iff_of_not_stays hstays).mp h
    have hbound := t.fraction_lt
    simp only [StaysInLeap, nanosPerSecond] at *
    omega

end DurableQueue.Timestamp
