import DurableQueue.Proofs.Store.Fate
import DurableQueue.Trial.Invariant

/-!
The lifecycle of stored entries.

`Entry.Evolves` says what may become of an entry without breaking its lifecycle: its identity stays,
its error count does not shrink, its state moves along the graph, and nothing changes in a terminal
state. Every fate is such a step, so `stored_lifecycle` holds for every operation in every state that
a run reaches.
-/

namespace DurableQueue

/-- One record may be followed by the other. -/
structure Entry.Evolves (e e' : Entry) : Prop where
  id : e'.id = e.id
  payload : e'.payload = e.payload
  creatingOwner : e'.creatingOwner = e.creatingOwner
  createdTime : e'.createdTime = e.createdTime
  searchKeys : e'.searchKeys = e.searchKeys
  errorCount : e.errorCount ≤ e'.errorCount
  move : e'.state = e.state ∨ e.state.canMoveTo e'.state = true
  frozen : e.state.isTerminal = true → e' = e

namespace Entry

theorem Evolves.refl (e : Entry) : e.Evolves e :=
  ⟨rfl, rfl, rfl, rfl, rfl, UInt32.le_refl _, .inl rfl, fun _ => rfl⟩

/-- A step along an edge of the graph starts in a state that is not terminal. -/
theorem Evolves.of_edge {e e' : Entry} (id : e'.id = e.id) (payload : e'.payload = e.payload)
    (creatingOwner : e'.creatingOwner = e.creatingOwner) (createdTime : e'.createdTime = e.createdTime)
    (searchKeys : e'.searchKeys = e.searchKeys) (errorCount : e.errorCount ≤ e'.errorCount)
    (edge : e.state.canMoveTo e'.state = true) : e.Evolves e' where
  id := id
  payload := payload
  creatingOwner := creatingOwner
  createdTime := createdTime
  searchKeys := searchKeys
  errorCount := errorCount
  move := .inr edge
  frozen := by
    intro ht
    rw [EntryState.not_canMoveTo_of_isTerminal ht] at edge
    cases edge

/-- What the check of a transition accepts. -/
theorem Evolves.transitionValid {e e' : Entry} (h : e.Evolves e') :
    Trial.Invariant.transitionValid e e' = .ok () := by
  have hmove : (e.state == e'.state || e.state.canMoveTo e'.state) = true := by
    rcases h.move with hm | hm
    · simp [hm]
    · simp [hm]
  simp only [Trial.Invariant.transitionValid, Trial.Invariant.require, h.id, h.payload, hmove,
    h.errorCount, BEq.rfl, decide_true, ↓reduceIte]
  rfl

theorem le_resolved_errorCount (e next : Entry) (now : Timestamp) :
    e.errorCount ≤ (Store.resolved e next now).errorCount := by
  simp only [Store.resolved]
  split
  · rename_i h
    exact UInt32.le_of_lt h
  · exact UInt32.le_refl _

/-- Every fate keeps the lifecycle. -/
theorem Fate.evolves {now : Timestamp} {op : StoreOp} {a : Except StoreError StoreAnswer}
    {e e' : Entry} (h : Fate now op a e e') : e.Evolves e' := by
  cases h with
  | kept _ _ => exact .refl e
  | claimed hop ha wanted listed =>
    have hs := (isClaimableAt_iff.mp (Store.isWanted_iff.mp wanted).1).1
    exact .of_edge rfl rfl rfl rfl rfl (UInt32.le_refl _) (by rw [hs]; rfl)
  | resolved hop ha hid same move =>
    exact .of_edge rfl rfl rfl rfl rfl (le_resolved_errorCount _ _ _) move
  | reaped hop ha hc stale listed only =>
    refine .of_edge rfl rfl rfl rfl rfl ?_ ?_
    · exact UInt32.le_iff_toNat_le.mpr (ReapPolicy.le_countAfter _ _)
    · rw [(isStaleClaim_iff.mp stale).1]
      exact ReapPolicy.canMoveTo_stateAfter _ _
  | released hop ha held listed only =>
    refine .of_edge rfl rfl rfl rfl rfl (UInt32.le_refl _) ?_
    rw [(isHeldBy_iff.mp held).1]
    rfl

end Entry

namespace Store

variable {s s' : Store} {op : StoreOp} {now : Timestamp} {a : Except StoreError StoreAnswer}

/-- No operation loses an entry. -/
theorem exists_fate (h : s.IsWellFormed) (he : Effect now s op a s') {e : Entry}
    (hmem : e ∈ s.stored) : ∃ e' ∈ s'.stored, Entry.Fate now op a e e' := by
  rcases stored_of_effect h he with ⟨f, hs, hf⟩ | ⟨new, rfl, rfl, hs⟩
  · exact ⟨f e, hs.mem_iff.mpr (List.mem_map_of_mem hmem), hf e hmem⟩
  · refine ⟨e, hs.mem_iff.mpr (List.mem_cons_of_mem _ hmem), ?_⟩
    exact .kept (by simp [StoreOp.claims]) (by simp [StoreOp.takeOuts])

/-- Purged entries stay purged. -/
theorem history_subset_of_effect (he : Effect now s op a s') : s.history ⊆ s'.history := by
  cases he with
  | purged olderThan => exact List.subset_append_left _ _
  | _ => exact List.Subset.refl _

theorem mem_stored_of_isTerminal (h : s.IsWellFormed) (he : Effect now s op a s') {e : Entry}
    (hmem : e ∈ s.stored) (ht : e.state.isTerminal = true) : e ∈ s'.stored := by
  obtain ⟨e', hmem', hfate⟩ := exists_fate h he hmem
  rwa [hfate.evolves.frozen ht] at hmem'

theorem mem_stored_run_of_isTerminal (h : s.IsWellFormed) {e : Entry} (hmem : e ∈ s.stored)
    (ht : e.state.isTerminal = true) (later : List (StoreOp × Timestamp)) :
    e ∈ (s.run later).2.stored := by
  induction later generalizing s with
  | nil => exact hmem
  | cons op rest ih =>
    have he := effect_apply s op.1 op.2
    exact ih (isWellFormed_of_effect h he) (mem_stored_of_isTerminal h he hmem ht)

theorem history_subset_run (s : Store) (later : List (StoreOp × Timestamp)) :
    s.history ⊆ (s.run later).2.history := by
  induction later generalizing s with
  | nil => exact List.Subset.refl _
  | cons op rest ih =>
    exact List.Subset.trans (history_subset_of_effect (effect_apply s op.1 op.2))
      (ih (s.apply op.1 op.2).2)

/-- Whatever operation comes next in whatever state a run has reached, each stored entry is followed
by exactly one record of its number, which keeps its identity and moves along the lifecycle. An entry
in a terminal state stays as it is for ever; once it is purged it stays so. -/
theorem stored_lifecycle (before : List (StoreOp × Timestamp)) (op : StoreOp) (now : Timestamp)
    (e : Entry) (he : e ∈ (empty.run before).2.stored) :
    (∃ e' ∈ ((empty.run before).2.apply op now).2.stored,
      (∀ f ∈ ((empty.run before).2.apply op now).2.stored, f.id = e.id → f = e') ∧
      e'.id = e.id ∧ e'.payload = e.payload ∧ e'.creatingOwner = e.creatingOwner ∧
      e'.createdTime = e.createdTime ∧ e'.searchKeys = e.searchKeys ∧
      e.errorCount ≤ e'.errorCount ∧
      (e'.state = e.state ∨ e.state.canMoveTo e'.state = true) ∧
      Trial.Invariant.transitionValid e e' = .ok () ∧
      (e.state.isTerminal = true → e' = e)) ∧
    (e.state.isTerminal = true → ∀ later : List (StoreOp × Timestamp),
      e ∈ ((empty.run before).2.run later).2.stored ∧
      (∀ f ∈ ((empty.run before).2.run later).2.stored, f.id = e.id → f = e) ∧
      (e ∈ (empty.run before).2.history → e ∈ ((empty.run before).2.run later).2.history)) := by
  have hwf := isWellFormed_run isWellFormed_empty before
  refine ⟨?_, fun ht later => ⟨?_, ?_, ?_⟩⟩
  · have heffect := effect_apply (empty.run before).2 op now
    obtain ⟨e', hmem', hfate⟩ := exists_fate hwf heffect he
    have h := hfate.evolves
    refine ⟨e', hmem', ?_, h.id, h.payload, h.creatingOwner, h.createdTime, h.searchKeys,
      h.errorCount, h.move, h.transitionValid, h.frozen⟩
    intro f hf hid
    exact (isWellFormed_of_effect hwf heffect).eq_of_id_eq hf hmem' (hid.trans h.id.symm)
  · exact mem_stored_run_of_isTerminal hwf he ht later
  · intro f hf hid
    exact (isWellFormed_run hwf later).eq_of_id_eq hf (mem_stored_run_of_isTerminal hwf he ht later)
      hid
  · intro hh
    exact history_subset_run _ later hh

/-- A claim of the first entry of a store, taken at the epoch. -/
def firstClaim : Entry :=
  (Entry.ofNew ⟨1⟩ ⟨⟨"order", []⟩, ⟨"node"⟩, .none⟩ .epoch).claimedBy ⟨"node"⟩ .epoch

/-- A run in which the first entry is appended, claimed and processed. -/
def processedRun : List (StoreOp × Timestamp) :=
  [(.append ⟨⟨"order", []⟩, ⟨"node"⟩, .none⟩, .epoch), (.claim 1 ⟨"node"⟩ none, .epoch),
   (.update firstClaim { firstClaim with state := .processed }, .epoch)]

/-- A processed entry outlasts every later run. -/
theorem stored_lifecycle_processed :
    let e := resolved firstClaim { firstClaim with state := .processed } .epoch
    e ∈ (empty.run processedRun).2.stored ∧ e.state.isTerminal = true ∧
      ∀ later : List (StoreOp × Timestamp), e ∈ ((empty.run processedRun).2.run later).2.stored :=
  ⟨by decide, rfl, fun later =>
    ((stored_lifecycle processedRun (.purge .latest) .epoch _ (by decide)).2 rfl later).1⟩

end Store

end DurableQueue
