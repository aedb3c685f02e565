import DurableQueue.Dispatch.Bus
import DurableQueue.Proofs.Store.Chronology

/-!
Terms on which several dispatchers retry, and what a store keeps under them.

A `RetryTerms` is what all dispatchers of a store agree on: the limit of failed attempts, and whether
any of them counts being taken back as one. `Entry.IsWithin` says what the terms mean for a stored
entry. Every operation that respects the terms keeps it, and so does a run of them
(`Store.Leads.isSound`), provided that claims are only resolved by records that respect the terms.
-/

namespace DurableQueue

/-- What the dispatchers of one store agree on. -/
structure RetryTerms where
  /-- Failed attempts after which an entry is not tried again. -/
  limit : UInt32
  /-- Whether being taken back may count as a failed attempt. -/
  penalty : Bool

/-- A reaper that keeps to the terms. -/
structure RetryTerms.Governs (t : RetryTerms) (p : ReapPolicy) : Prop where
  limit : p.maxFailureRetries = t.limit
  penalty : p.penalize = true → t.penalty = true

/-- A stored entry under the terms. An entry that may still be claimed, or is, has attempts to
spare. -/
structure Entry.IsWithin (t : RetryTerms) (e : Entry) : Prop where
  bounded : e.errorCount ≤ t.limit
  spare : e.state = .available ∨ e.state = .inProcessing → e.errorCount < t.limit
  notReaped : t.penalty = false → e.state ≠ .reaped

/-- A record by which a claim may be resolved. -/
structure Entry.IsResolution (t : RetryTerms) (next : Entry) : Prop where
  bounded : next.errorCount ≤ t.limit
  spare : next.state = .available → next.errorCount < t.limit
  notReaped : next.state ≠ .reaped

/-- An operation under the terms. -/
def StoreOp.Respects (t : RetryTerms) : StoreOp → Prop
  | .update _ next => next.IsResolution t
  | .reap p => t.Governs p
  | _ => True

theorem countFailure_le {count limit : UInt32} (h : count < limit) : countFailure count ≤ limit := by
  have hcount := toNat_countFailure count
  rw [UInt32.lt_iff_toNat_lt] at h
  rw [UInt32.le_iff_toNat_le, hcount]
  omega

theorem ReapPolicy.countAfter_le {p : ReapPolicy} {count limit : UInt32} (h : count < limit) :
    p.countAfter count ≤ limit := by
  unfold ReapPolicy.countAfter
  split
  · exact countFailure_le h
  · exact UInt32.le_of_lt h

namespace Entry.IsWithin

variable {t : RetryTerms} {e : Entry} {now : Timestamp}

/-- An entry whose attempts are spent is never claimed again. -/
theorem isTerminal (h : e.IsWithin t) (hspent : t.limit ≤ e.errorCount) :
    e.state.isTerminal = true := by
  have hnot : ¬ (e.state = .available ∨ e.state = .inProcessing) := fun hs =>
    UInt32.not_lt.mpr hspent (h.spare hs)
  cases hstate : e.state with
  | available => exact absurd (.inl hstate) hnot
  | inProcessing => exact absurd (.inr hstate) hnot
  | _ => rfl

theorem ofNew (ht : 0 < t.limit) (id : EntryId) (new : NewEntry) (now : Timestamp) :
    (Entry.ofNew id new now).IsWithin t where
  bounded := UInt32.le_of_lt ht
  spare _ := ht
  notReaped _ := by simp [Entry.ofNew]

theorem resolved (h : e.IsWithin t) (hs : e.state = .inProcessing) {next : Entry}
    (hnext : next.IsResolution t) (move : e.state.canMoveTo next.state = true) :
    (Store.resolved e next now).IsWithin t where
  bounded := by
    simp only [Store.resolved]
    split
    · exact hnext.bounded
    · exact h.bounded
  spare := by
    intro hstate
    have havailable : next.state = .available := by
      rcases hstate with hstate | hstate
      · exact hstate
      · rw [hs, show next.state = .inProcessing from hstate] at move
        cases move
    simp only [Store.resolved]
    split
    · exact hnext.spare havailable
    · exact h.spare (.inr hs)
  notReaped _ := hnext.notReaped

theorem reaped (h : e.IsWithin t) (hs : e.state = .inProcessing) {p : ReapPolicy}
    (hp : t.Governs p) : (e.reaped p now).IsWithin t where
  bounded := ReapPolicy.countAfter_le (h.spare (.inr hs))
  spare := by
    simp only [Entry.reaped, ReapPolicy.stateAfter, hp.limit]
    intro hstate
    split at hstate
    · assumption
    · simp at hstate
  notReaped hpenalty := by
    -- without a penalty the count stays, and the claimed entry had attempts to spare
    have hoff : p.penalize = false := by
      cases hpenalize : p.penalize with
      | false => rfl
      | true => simp [hp.penalty hpenalize] at hpenalty
    have hcount : p.countAfter e.errorCount < p.maxFailureRetries := by
      simp only [ReapPolicy.countAfter, hoff, Bool.false_eq_true, ↓reduceIte, hp.limit]
      exact h.spare (.inr hs)
    simp [Entry.reaped, ReapPolicy.stateAfter, hcount]

/-- What an operation makes of an entry stays within the terms. -/
theorem of_fate {op : StoreOp} {a : Except StoreError StoreAnswer} {e' : Entry}
    (h : e.IsWithin t) (hop : op.Respects t) (hfate : Fate now op a e e') : e'.IsWithin t := by
  cases hfate with
  | kept _ _ => exact h
  | claimed hop' ha wanted listed =>
    have hs := (isClaimableAt_iff.mp (Store.isWanted_iff.mp wanted).1).1
    exact ⟨h.bounded, fun _ => h.spare (.inl hs), fun _ => by simp [Entry.claimedBy]⟩
  | resolved hop' ha hid same move =>
    subst hop'
    exact h.resolved (Store.isSameClaim_iff.mp same).1 hop move
  | reaped hop' ha hc stale listed only =>
    subst hop'
    exact h.reaped (isStaleClaim_iff.mp stale).1 hop
  | released hop' ha held listed only =>
    have hs := (isHeldBy_iff.mp held).1
    exact ⟨h.bounded, fun _ => h.spare (.inr hs), fun _ => by simp [Entry.released]⟩

end Entry.IsWithin

namespace Store

variable {t : RetryTerms} {s s' s'' : Store} {op : StoreOp} {now : Timestamp}

/-- A store whose entries are within the terms. -/
structure IsSound (t : RetryTerms) (s : Store) : Prop where
  wellFormed : s.IsWellFormed
  within : ∀ e ∈ s.stored, e.IsWithin t

theorem isSound_empty (t : RetryTerms) : empty.IsSound t where
  wellFormed := isWellFormed_empty
  within := by simp [empty, stored]

theorem IsSound.apply (h : s.IsSound t) (ht : 0 < t.limit) (hop : op.Respects t) (now : Timestamp) :
    (s.apply op now).2.IsSound t where
  wellFormed := isWellFormed_of_effect h.wellFormed (effect_apply s op now)
  within := by
    intro f hf
    rcases exists_before h.wellFormed (effect_apply s op now) hf with ⟨e, he, hfate⟩ | ⟨new, rfl⟩
    · exact (h.within e he).of_fate hop hfate
    · exact .ofNew ht _ _ _

/-- A claim that is handed out has attempts to spare. -/
theorem IsSound.spare_of_handedOut (h : s.IsSound t) (ht : 0 < t.limit) (hop : op.Respects t)
    (now : Timestamp) {c : Entry} (hc : c ∈ op.handsOut (s.apply op now).1) : c.errorCount < t.limit := by
  obtain ⟨hmem, hs, -⟩ := stored_of_mem_handsOut h.wellFormed (effect_apply s op now) hc
  exact ((h.apply ht hop now).within c hmem).spare (.inr hs)

/-- A run of allowed operations leads from one store to the other. -/
def Leads (allowed : StoreOp → Prop) (s s' : Store) : Prop :=
  ∃ ops : List (StoreOp × Timestamp), (∀ o ∈ ops, allowed o.1) ∧ (s.run ops).2 = s'

theorem run_append (s : Store) (before after : List (StoreOp × Timestamp)) :
    (s.run (before ++ after)).2 = ((s.run before).2.run after).2 := by
  induction before generalizing s with
  | nil => rfl
  | cons op rest ih => exact ih (s.apply op.1 op.2).2

namespace Leads

variable {allowed : StoreOp → Prop}

theorem refl (allowed : StoreOp → Prop) (s : Store) : Leads allowed s s := ⟨[], by simp, rfl⟩

theorem of_apply (hop : allowed op) (s : Store) (now : Timestamp) :
    Leads allowed s (s.apply op now).2 :=
  ⟨[(op, now)], by simpa using hop, rfl⟩

theorem trans (h : Leads allowed s s') (h' : Leads allowed s' s'') : Leads allowed s s'' := by
  obtain ⟨before, hbefore, rfl⟩ := h
  obtain ⟨after, hafter, rfl⟩ := h'
  refine ⟨before ++ after, ?_, run_append s before after⟩
  intro o ho
  rcases List.mem_append.mp ho with ho | ho
  · exact hbefore o ho
  · exact hafter o ho

theorem isSound (h : Leads (StoreOp.Respects t) s s') (ht : 0 < t.limit) (hs : s.IsSound t) :
    s'.IsSound t := by
  obtain ⟨ops, hops, rfl⟩ := h
  induction ops generalizing s with
  | nil => exact hs
  | cons op rest ih =>
    refine ih (hs.apply ht (hops op (List.mem_cons_self ..)) op.2) fun o ho => ?_
    exact hops o (List.mem_cons_of_mem _ ho)

/-- Who is in a terminal state stays there as it is. -/
theorem mem_stored_of_isTerminal (h : Leads allowed s s') (hs : s.IsWellFormed) {e : Entry}
    (he : e ∈ s.stored) (hterminal : e.state.isTerminal = true) : e ∈ s'.stored := by
  obtain ⟨ops, -, rfl⟩ := h
  exact mem_stored_run_of_isTerminal hs he hterminal ops

end Leads

end Store

end DurableQueue
