import DurableQueue.Proofs.Time.Later
import DurableQueue.Time.Clock

/-!
What the clones of a clock read.

Clones of a clock keep its start for themselves and share its count of nanoseconds, so a call on one of them
moves them all. After any calls the count is what all calls together moved it by, in 64 bits (`count_run`). As
long as it fits, no reading of any clone is earlier than one before it (`readings_in_order`); the calendar stops
at `Timestamp.latest`, which only a clock that starts in the leap second behind it is ahead of. A call that takes
the count beyond 64 bits sets every clone back.
-/

namespace DurableQueue

/-- A reading of the clock of the machine: nanoseconds, whose seconds are a signed 64-bit number. -/
structure Instant where
  nanos : Int
  notAfter : nanos < (Nat.pow 2 63 * nanosPerSecond : Nat)

namespace Instant

instance : LE Instant := ⟨fun a b => a.nanos ≤ b.nanos⟩

theorem le_def {a b : Instant} : a ≤ b ↔ a.nanos ≤ b.nanos := Iff.rfl

/-- The instant a span later; there is none beyond the last second. -/
def plus? (t : Instant) (s : Span) : Option Instant :=
  if h : t.nanos + s.nanos < (Nat.pow 2 63 * nanosPerSecond : Nat) then some ⟨t.nanos + s.nanos, h⟩ else none

variable {t u v : Instant} {s s' : Span}

theorem plus?_eq_some (h : t.plus? s = some u) : u.nanos = t.nanos + s.nanos := by
  unfold plus? at h
  split at h
  · cases h
    rfl
  · cases h

theorem plus?_mono (hle : s ≤ s') (hu : t.plus? s = some u) (hv : t.plus? s' = some v) : u ≤ v := by
  rw [le_def, plus?_eq_some hu, plus?_eq_some hv]
  rw [Span.le_def] at hle
  omega

/-- An instant that is far enough from the last second has a later one. -/
theorem isSome_plus? (h : t.nanos + s.nanos < (Nat.pow 2 63 * nanosPerSecond : Nat)) :
    (t.plus? s).isSome = true := by
  rw [plus?, dif_pos h]
  rfl

end Instant

namespace Timestamp

variable {t u : Timestamp} {s : Span}

/-- Only the leap second behind it is later than the latest time. -/
theorem latest_lt_iff : latest < t ↔ t.second = lastSecond ∧ t.isLeap = true := by
  have hlast := t.notAfter
  have hsecond : latest.second = lastSecond := rfl
  have hfraction : latest.fraction = 999999999 := rfl
  rw [lt_def, isLeap_iff, hsecond, hfraction, nanosPerSecond]
  omega

/-- No sum is behind the latest time unless it started from there. -/
theorem latest_lt_of_plus? (h : t.plus? s = some u) (hlate : latest < u) : latest < t := by
  have hlater := plus?_eq_some_iff.mp h
  obtain ⟨hsecond, hleap⟩ := latest_lt_iff.mp hlate
  obtain ⟨hstart, hwithin⟩ := hlater.isLeap.mp hleap
  have hstays : t.StaysInLeap s := by
    rw [isLeap_iff] at hstart
    refine ⟨hstart, ?_, hwithin⟩
    simp only [nanosPerSecond] at hstart hwithin ⊢
    omega
  have hsame := ((isLaterBy_iff_of_stays hstays).mp hlater).1
  exact latest_lt_iff.mpr ⟨hsame.symm.trans hsecond, hstart⟩

end Timestamp

namespace ManualClock

variable {start : Timestamp} {m n : UInt64}

theorem elapsed_le_iff : elapsed ⟨start, m⟩ ≤ elapsed ⟨start, n⟩ ↔ m ≤ n := Iff.rfl

/-- The calendar goes on with the count. A clock that starts behind the latest time is there until it leaves
the leap second, and at the latest time from then on. -/
theorem now_mono (start : Timestamp) (h : m ≤ n) :
    now ⟨start, m⟩ ≤ now ⟨start, n⟩ ∨ Timestamp.latest < start ∧ now ⟨start, n⟩ = Timestamp.latest := by
  have hspan : elapsed ⟨start, m⟩ ≤ elapsed ⟨start, n⟩ := elapsed_le_iff.mpr h
  cases hlong : start.plus? (elapsed ⟨start, n⟩) with
  | some v =>
    obtain ⟨u, hu, hle⟩ := Timestamp.exists_plus?_le hspan hlong
    refine .inl ?_
    simpa only [now, hu, hlong] using hle
  | none =>
    cases hshort : start.plus? (elapsed ⟨start, m⟩) with
    | none =>
      refine .inl ?_
      simp only [now, hshort, hlong, le_refl]
    | some u =>
      by_cases hlate : Timestamp.latest < u
      · refine .inr ⟨Timestamp.latest_lt_of_plus? hshort hlate, ?_⟩
        simp only [now, hlong]
      · refine .inl ?_
        simpa only [now, hshort, hlong] using not_lt.mp hlate

end ManualClock

/-- What a clone of a clock keeps for itself: when the clock was created, by the machine and by the calendar. -/
structure ClockClone where
  origin : Instant
  start : Timestamp

/-- What a clone reads. A reading of the machine's clock beyond its last second breaks down. -/
structure ClockReading where
  elapsed : Span
  instant : Option Instant
  now : Timestamp

namespace ClockClone

/-- What a clone reads at a count of nanoseconds. -/
def read (c : ClockClone) (elapsedNanos : UInt64) : ClockReading :=
  let clock : ManualClock := ⟨c.start, elapsedNanos⟩
  ⟨clock.elapsed, c.origin.plus? clock.elapsed, clock.now⟩

theorem elapsed_read (c : ClockClone) (n : UInt64) : (c.read n).elapsed.nanos = n.toNat := rfl

end ClockClone

/-- The clones of a clock and the count that they share. -/
structure SharedClock where
  clones : List ClockClone
  elapsedNanos : UInt64

/-- A call on one of the clones. -/
inductive ClockCall where
  | clone (i : Nat)
  | advance (i : Nat) (by_ : Span)
  /-- Moves the clock by the span and then gives way to others. -/
  | sleep (i : Nat) (by_ : Span)

namespace SharedClock

def startingAt (origin : Instant) (start : Timestamp) : SharedClock := ⟨[⟨origin, start⟩], 0⟩

/-- Moves the clock through one of its clones; without a clone of this number there is nothing to move. -/
def advance (s : SharedClock) (i : Nat) (by_ : Span) : SharedClock :=
  match s.clones[i]? with
  | none => s
  | some c => { s with elapsedNanos := (ManualClock.advance ⟨c.start, s.elapsedNanos⟩ by_).elapsedNanos }

def call (s : SharedClock) : ClockCall → SharedClock
  | .clone i =>
    match s.clones[i]? with
    | none => s
    | some c => { s with clones := s.clones ++ [c] }
  | .advance i by_ | .sleep i by_ => s.advance i by_

def run (s : SharedClock) (calls : List ClockCall) : SharedClock := calls.foldl call s

/-- What a clone reads, if there is one of this number. -/
def read? (s : SharedClock) (i : Nat) : Option ClockReading := s.clones[i]?.map (·.read s.elapsedNanos)

/-- The nanoseconds that a call adds to the count. A span beyond 64 bits of them counts as the largest one. -/
def added (s : SharedClock) : ClockCall → Nat
  | .clone _ => 0
  | .advance i by_ | .sleep i by_ => if i < s.clones.length then min by_.nanos (UInt64.size - 1) else 0

/-- The nanoseconds that calls add to the count, one after the other. -/
def addedInAll (s : SharedClock) : List ClockCall → Nat
  | [] => 0
  | call :: rest => s.added call + (s.call call).addedInAll rest

variable {s : SharedClock} {c : ClockClone} {r : ClockReading} {i : Nat}

theorem clones_advance (s : SharedClock) (i : Nat) (by_ : Span) : (s.advance i by_).clones = s.clones := by
  unfold advance
  split <;> rfl

theorem count_advance (s : SharedClock) (i : Nat) (by_ : Span) :
    (s.advance i by_).elapsedNanos.toNat =
      (s.elapsedNanos.toNat + if i < s.clones.length then min by_.nanos (UInt64.size - 1) else 0) %
        UInt64.size := by
  unfold advance
  split
  · rename_i hnone
    rw [if_neg (Nat.not_lt.mpr (List.getElem?_eq_none_iff.mp hnone))]
    exact (Nat.mod_eq_of_lt s.elapsedNanos.toNat_lt).symm
  · rename_i c hc
    obtain ⟨hlt, -⟩ := List.getElem?_eq_some_iff.mp hc
    rw [if_pos hlt]
    exact ManualClock.elapsed_advance _ by_

theorem added_lt (s : SharedClock) (call : ClockCall) : s.added call < UInt64.size := by
  have hsize : 0 < UInt64.size := by decide
  have hspan : ∀ n : Nat, min n (UInt64.size - 1) < UInt64.size := by omega
  cases call with
  | clone i => exact hsize
  | advance i by_ | sleep i by_ =>
    simp only [added]
    split
    · exact hspan _
    · exact hsize

/-- A call adds to the count, which starts over beyond 64 bits. -/
theorem count_call (s : SharedClock) (call : ClockCall) :
    (s.call call).elapsedNanos.toNat = (s.elapsedNanos.toNat + s.added call) % UInt64.size := by
  cases call with
  | clone i =>
    have hsame := (Nat.mod_eq_of_lt s.elapsedNanos.toNat_lt).symm
    simp only [SharedClock.call]
    split <;> exact hsame
  | advance i by_ => exact count_advance s i by_
  | sleep i by_ => exact count_advance s i by_

/-- After any calls the count is what they added to it, in 64 bits. -/
theorem count_run (s : SharedClock) (calls : List ClockCall) :
    (s.run calls).elapsedNanos.toNat = (s.elapsedNanos.toNat + s.addedInAll calls) % UInt64.size := by
  induction calls generalizing s with
  | nil => exact (Nat.mod_eq_of_lt s.elapsedNanos.toNat_lt).symm
  | cons call rest ih =>
    have hrest := ih (s.call call)
    rw [count_call, Nat.mod_add_mod, Nat.add_assoc] at hrest
    exact hrest

/-- All clones keep the same. -/
def IsShared (c : ClockClone) (s : SharedClock) : Prop := ∀ clone ∈ s.clones, clone = c

theorem isShared_startingAt (origin : Instant) (start : Timestamp) :
    (startingAt origin start).IsShared ⟨origin, start⟩ := by
  intro clone hmem
  exact List.mem_singleton.mp hmem

theorem isShared_call (h : s.IsShared c) (call : ClockCall) : (s.call call).IsShared c := by
  cases call with
  | clone i =>
    simp only [SharedClock.call]
    split
    · exact h
    · rename_i x hx
      intro clone hmem
      rcases List.mem_append.mp hmem with hmem | hmem
      · exact h clone hmem
      · rw [List.mem_singleton.mp hmem]
        exact h x (List.mem_of_getElem? hx)
  | advance i by_ =>
    simp only [SharedClock.call, IsShared, clones_advance]
    exact h
  | sleep i by_ =>
    simp only [SharedClock.call, IsShared, clones_advance]
    exact h

theorem isShared_run (h : s.IsShared c) (calls : List ClockCall) : (s.run calls).IsShared c := by
  induction calls generalizing s with
  | nil => exact h
  | cons call rest ih => exact ih (isShared_call h call)

/-- All clones read the same. -/
theorem IsShared.eq_read (h : s.IsShared c) (hr : s.read? i = some r) : r = c.read s.elapsedNanos := by
  obtain ⟨clone, hclone, rfl⟩ := Option.map_eq_some_iff.mp hr
  rw [h clone (List.mem_of_getElem? hclone)]

/-- What clones read in the course of whatever calls on them. The count goes on by what the calls add to it, in 64
bits. As long as it fits, no clone reads an earlier time than any clone did before: not by the count, not by the
clock of the machine, and not by the calendar, unless the clock was started behind the latest time and comes
back to it. One call sets the clones back exactly if it takes the count beyond 64 bits. -/
theorem readings_in_order {origin : Instant} {start : Timestamp} {calls later : List ClockCall}
    {s s' : SharedClock} (hs : s = (startingAt origin start).run calls) (hs' : s' = s.run later) {i j : Nat}
    {r r' : ClockReading} (hr : s.read? i = some r) (hr' : s'.read? j = some r') :
    r'.elapsed.nanos = (r.elapsed.nanos + s.addedInAll later) % UInt64.size ∧
    (r.elapsed.nanos + s.addedInAll later < UInt64.size →
      r.elapsed ≤ r'.elapsed ∧
      (∀ t t', r.instant = some t → r'.instant = some t' → t ≤ t') ∧
      (r.now ≤ r'.now ∨ Timestamp.latest < start ∧ r'.now = Timestamp.latest)) ∧
    (∀ call, later = [call] →
      (r'.elapsed < r.elapsed ↔ UInt64.size ≤ r.elapsed.nanos + s.added call)) ∧
    (origin.nanos + UInt64.size ≤ (Nat.pow 2 63 * nanosPerSecond : Nat) → r.instant.isSome = true) := by
  have hshared : s.IsShared ⟨origin, start⟩ := hs ▸ isShared_run (isShared_startingAt origin start) calls
  have hshared' : s'.IsShared ⟨origin, start⟩ := hs' ▸ isShared_run hshared later
  have hcount : s'.elapsedNanos.toNat = (s.elapsedNanos.toNat + s.addedInAll later) % UInt64.size :=
    hs' ▸ count_run s later
  have hlt : s.elapsedNanos.toNat < UInt64.size := s.elapsedNanos.toNat_lt
  obtain rfl := hshared.eq_read hr
  obtain rfl := hshared'.eq_read hr'
  simp only [Span.lt_def, ClockClone.elapsed_read]
  refine ⟨hcount, ?_, ?_, ?_⟩
  · intro hfits
    have hle : s.elapsedNanos ≤ s'.elapsedNanos := by
      rw [UInt64.le_iff_toNat_le, hcount, Nat.mod_eq_of_lt hfits]
      exact Nat.le_add_right _ _
    refine ⟨hle, ?_, ManualClock.now_mono start hle⟩
    intro t t' ht ht'
    exact Instant.plus?_mono hle ht ht'
  · rintro call rfl
    have hadded := added_lt s call
    have hone : s.addedInAll [call] = s.added call := Nat.add_zero _
    rw [hcount, hone]
    -- a single call takes the count past its range once at most
    rcases Nat.lt_or_ge (s.elapsedNanos.toNat + s.added call) UInt64.size with hfits | hover
    · rw [Nat.mod_eq_of_lt hfits]
      omega
    · rw [Nat.mod_eq_sub_mod hover, Nat.mod_eq_of_lt (by omega)]
      omega
  · intro hfar
    refine Instant.isSome_plus? ?_
    show origin.nanos + (s.elapsedNanos.toNat : Int) < (Nat.pow 2 63 * nanosPerSecond : Nat)
    omega

/-- A clock from the epoch on that was moved by a second and cloned. -/
def clonedClock : SharedClock :=
  (startingAt ⟨0, by decide⟩ .epoch).run [.advance 0 (.ofSeconds 1), .clone 0]

/-- The clone moves the clock by two seconds more. -/
theorem readings_in_order_clonedClock :
    ∃ r r', clonedClock.read? 0 = some r ∧ (clonedClock.run [.sleep 1 (.ofSeconds 2)]).read? 0 = some r' ∧
      r.elapsed = .ofSeconds 1 ∧ r'.elapsed = .ofSeconds 3 ∧ r.elapsed ≤ r'.elapsed ∧
      r.now.second = 1 ∧ r'.now.second = 3 ∧ r.now ≤ r'.now ∧ r.instant.isSome = true := by
  obtain ⟨-, hfits, -, hinstant⟩ := readings_in_order (i := 0) (j := 0) (rfl : clonedClock = _)
    (rfl : clonedClock.run [.sleep 1 (.ofSeconds 2)] = _) rfl rfl
  obtain ⟨helapsed, -, hnow⟩ := hfits (by decide)
  exact ⟨_, _, rfl, rfl, by decide, by decide, helapsed, by decide, by decide,
    hnow.resolve_right fun h => absurd h.1 (by decide), hinstant (by decide)⟩

/-- A clock that was moved to the end of its count, and one that was started half a second into the leap second
behind the latest time. The next call sets back what their clones read. -/
theorem clones_set_back :
    (∃ r r' : ClockReading,
      ((startingAt ⟨0, by decide⟩ .epoch).run [.advance 0 .max]).read? 0 = some r ∧
      ((startingAt ⟨0, by decide⟩ .epoch).run [.advance 0 .max, .advance 0 ⟨1, by decide⟩]).read? 0 = some r' ∧
      r'.elapsed < r.elapsed ∧ r'.now < r.now) ∧
    ∃ start : Timestamp, ∃ r r' : ClockReading,
      (startingAt ⟨0, by decide⟩ start).read? 0 = some r ∧
      ((startingAt ⟨0, by decide⟩ start).run [.advance 0 (.ofSeconds 1)]).read? 0 = some r' ∧
      r'.now < r.now := by
  refine ⟨⟨_, _, rfl, rfl, by decide, by decide⟩, ?_⟩
  exact ⟨⟨Timestamp.lastSecond, 1500000000, by decide, by decide, by decide⟩, _, _, rfl, rfl, by decide⟩

end SharedClock

end DurableQueue
