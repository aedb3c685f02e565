import DurableQueue.Store.Error

/-!
Taking back orphaned claims.

A claim that is older than `ReapPolicy.claimTimeout` counts as orphaned. `Entry.reaped` says what
becomes of its entry: it is available again while its error count stays below the limit.
-/

namespace DurableQueue

/-- When a claim is orphaned and what taking it back costs. -/
structure ReapPolicy where
  /-- Claims older than this are orphaned. -/
  claimTimeout : Span
  /-- The error count at which an entry is not made available again. -/
  maxFailureRetries : UInt32
  /-- Whether being taken back counts as a failed attempt. -/
  penalize : Bool
deriving DecidableEq

namespace ReapPolicy

/-- The error count after the entry was taken back. -/
def countAfter (p : ReapPolicy) (count : UInt32) : UInt32 :=
  if p.penalize then countFailure count else count

/-- The state after the entry was taken back, by its error count before. -/
def stateAfter (p : ReapPolicy) (count : UInt32) : EntryState :=
  if p.countAfter count < p.maxFailureRetries then .available else .reaped

/-- Claims last touched before this time are orphaned. -/
def cutoff (p : ReapPolicy) (now : Timestamp) : Except StoreError Timestamp :=
  if p.claimTimeout.CanShift then
    match now.minus? p.claimTimeout with
    | some t => .ok t
    | none => .error (.invalidInput "claim timeout reaches before epoch")
  else
    .error (.invalidInput
      ("claim timeout out of range: " ++ "Source duration value is out of range for the target type"))

theorem stateAfter_eq (p : ReapPolicy) (count : UInt32) :
    p.stateAfter count = .available ∨ p.stateAfter count = .reaped := by
  unfold stateAfter
  split <;> simp

theorem canMoveTo_stateAfter (p : ReapPolicy) (count : UInt32) :
    EntryState.inProcessing.canMoveTo (p.stateAfter count) = true := by
  rcases p.stateAfter_eq count with h | h <;> rw [h] <;> rfl

theorem le_countAfter (p : ReapPolicy) (count : UInt32) :
    count.toNat ≤ (p.countAfter count).toNat := by
  unfold countAfter
  split
  · exact le_countFailure count
  · exact Nat.le_refl _

end ReapPolicy

/-- An entry after its orphaned claim was taken back. -/
def Entry.reaped (e : Entry) (p : ReapPolicy) (now : Timestamp) : Entry :=
  { e with state := p.stateAfter e.errorCount, errorCount := p.countAfter e.errorCount,
           processingOwner := none, updatedTime := now, nextAvailableTime := now }

end DurableQueue
