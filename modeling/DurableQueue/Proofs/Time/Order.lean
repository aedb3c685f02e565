import DurableQueue.Time.Timestamp
import Mathlib.Order.Defs.LinearOrder

/-!
The order of points in time.

Timestamps are ordered like pairs of a second and a fraction. Going back by a span never leads to a later
one (`minus?_le`), and of two spans the longer one does not lead to an earlier time (`exists_plus?_le`),
leap seconds included.
-/

namespace DurableQueue.Timestamp

theorem le_iff {a b : Timestamp} :
    a ≤ b ↔ a.second < b.second ∨ (a.second = b.second ∧ a.fraction ≤ b.fraction) := by
  rw [← not_lt, lt_def]
  omega

instance : LinearOrder Timestamp where
  le_refl a := by
    rw [le_iff]
    omega
  le_trans a b c hab hbc := by
    rw [le_iff] at hab hbc ⊢
    omega
  lt_iff_le_not_ge a b := by
    rw [le_iff, le_iff, lt_def]
    omega
  le_antisymm a b hab hba := by
    rw [le_iff] at hab hba
    exact ext (by omega) (by omega)
  le_total a b := by
    rw [le_iff, le_iff]
    omega
  toDecidableLE := inferInstance
  toDecidableEq := inferInstance
  toDecidableLT := inferInstance

theorem ofParts?_eq_some {second : Int} {fraction : Nat} {t : Timestamp}
    (h : ofParts? second fraction = some t) : t.second = second ∧ t.fraction = fraction := by
  unfold ofParts? at h
  split at h
  · cases h
    exact ⟨rfl, rfl⟩
  · cases h

theorem isLeap_iff {t : Timestamp} : t.isLeap = true ↔ nanosPerSecond ≤ t.fraction := by
  simp [isLeap]

theorem isLeap_eq_false_iff {t : Timestamp} : t.isLeap = false ↔ t.fraction < nanosPerSecond := by
  simp [isLeap]

/-- A shift backwards does not lead to a later time. -/
theorem shift?_neg_le {t u : Timestamp} {nanos : Nat} (h : t.shift? (-(nanos : Int)) = some u) :
    u ≤ t := by
  have hseconds : Int.tdiv (-(nanos : Int)) nanosPerSecond = -((nanos / nanosPerSecond : Nat) : Int) := by
    rw [Int.neg_tdiv]
    rfl
  have hrest : Int.tmod (-(nanos : Int)) nanosPerSecond = -((nanos % nanosPerSecond : Nat) : Int) := by
    rw [Int.neg_tmod]
    rfl
  have hbound := t.fraction_lt
  simp only [shift?, hseconds, hrest] at h
  rw [le_iff]
  cases hleap : t.isLeap with
  | false =>
    -- the fraction is less than a second, and so is what is left of it
    have hfraction := isLeap_eq_false_iff.mp hleap
    simp only [hleap, Bool.false_eq_true, false_and, ↓reduceIte, nanosPerSecond] at h hfraction
    obtain ⟨hs, hf⟩ := ofParts?_eq_some h
    omega
  | true =>
    -- a shift that leaves the leap second ends before it, and what is left counts as a second
    have hfraction := isLeap_iff.mp hleap
    simp only [hleap, true_and, ↓reduceIte, nanosPerSecond] at h hbound hfraction
    split at h
    · obtain ⟨hs, hf⟩ := ofParts?_eq_some h
      omega
    · obtain ⟨hs, hf⟩ := ofParts?_eq_some h
      split at hs <;> omega

theorem minus?_le {t u : Timestamp} {s : Span} (h : t.minus? s = some u) : u ≤ t :=
  shift?_neg_le h

theorem exists_ofParts? {second : Int} {fraction : Nat} (hfirst : firstSecond ≤ second)
    (hlast : second ≤ lastSecond) (hfraction : fraction < 2 * nanosPerSecond) :
    ∃ t, ofParts? second fraction = some t ∧ t.second = second ∧ t.fraction = fraction := by
  refine ⟨⟨second, fraction, hfirst, hlast, hfraction⟩, ?_, rfl, rfl⟩
  rw [ofParts?, dif_pos ⟨hfirst, hlast, hfraction⟩]

/-- A shift forward that stays in a leap second goes on in it; any other one counts from the fraction
without the leap second. -/
theorem shift?_natCast (t : Timestamp) (n : Nat) :
    t.shift? n =
      if nanosPerSecond ≤ t.fraction ∧ n < nanosPerSecond ∧ t.fraction + n < 2 * nanosPerSecond then
        ofParts? t.second (t.fraction + n)
      else
        ofParts? (t.second + ((t.fraction % nanosPerSecond + n) / nanosPerSecond : Nat))
          ((t.fraction % nanosPerSecond + n) % nanosPerSecond) := by
  have hseconds : Int.tdiv (n : Int) nanosPerSecond = ((n / nanosPerSecond : Nat) : Int) := rfl
  have hrest : Int.tmod (n : Int) nanosPerSecond = ((n % nanosPerSecond : Nat) : Int) := rfl
  have hbound := t.fraction_lt
  by_cases hstays : nanosPerSecond ≤ t.fraction ∧ n < nanosPerSecond ∧
      t.fraction + n < 2 * nanosPerSecond
  · have hleap := isLeap_iff.mpr hstays.1
    rw [if_pos hstays]
    simp only [shift?, hseconds, hrest, hleap, true_and, ↓reduceIte]
    split
    · congr 1
      simp only [nanosPerSecond] at hstays ⊢
      omega
    · simp only [nanosPerSecond] at *
      omega
  · rw [if_neg hstays]
    cases hleap : t.isLeap with
    | false =>
      have hfraction := isLeap_eq_false_iff.mp hleap
      simp only [shift?, hseconds, hrest, hleap, Bool.false_eq_true, false_and, ↓reduceIte]
      simp only [nanosPerSecond] at hfraction ⊢
      congr 1 <;> omega
    | true =>
      have hfraction := isLeap_iff.mp hleap
      simp only [shift?, hseconds, hrest, hleap, true_and, ↓reduceIte]
      split
      · simp only [nanosPerSecond] at *
        omega
      · split
        · simp only [nanosPerSecond] at *
          omega
        · simp only [nanosPerSecond] at *
          congr 1 <;> omega

/-- A shorter shift forward stays within the calendar too, and does not lead to a later time. -/
theorem exists_shift?_le {t v : Timestamp} {m n : Nat} (hmn : m ≤ n) (h : t.shift? n = some v) :
    ∃ u, t.shift? m = some u ∧ u ≤ v := by
  have hbound := t.fraction_lt
  have hfirst := t.notBefore
  have hlast := v.notAfter
  have reaches : ∀ (second : Int) (fraction : Nat), firstSecond ≤ second →
      fraction < 2 * nanosPerSecond →
      second < v.second ∨ (second = v.second ∧ fraction ≤ v.fraction) →
      ∃ u, ofParts? second fraction = some u ∧ u ≤ v := by
    intro second fraction hge hlt hle
    obtain ⟨u, hu, rfl, rfl⟩ := exists_ofParts? hge (by omega) hlt
    exact ⟨u, hu, le_iff.mpr hle⟩
  rw [shift?_natCast] at h ⊢
  split at h
  · rename_i hstays
    obtain ⟨hs, hf⟩ := ofParts?_eq_some h
    rw [if_pos ⟨hstays.1, by omega, by omega⟩]
    exact reaches _ _ (by omega) (by omega) (by omega)
  · obtain ⟨hs, hf⟩ := ofParts?_eq_some h
    split
    · simp only [nanosPerSecond] at *
      exact reaches _ _ (by omega) (by omega) (by omega)
    · simp only [nanosPerSecond] at *
      exact reaches _ _ (by omega) (by omega) (by omega)

/-- A time that is reached after a span is not before the one that is reached after a shorter span. -/
theorem exists_plus?_le {t v : Timestamp} {short long : Span} (hle : short ≤ long)
    (h : t.plus? long = some v) : ∃ u, t.plus? short = some u ∧ u ≤ v :=
  exists_shift?_le hle h

end DurableQueue.Timestamp
