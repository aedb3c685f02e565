import DurableQueue.Proofs.Store.Fate

/-!
How many entries were processed, and how many failed.

Only updates settle an entry in one of these states. An update that is accepted settles one entry in the
state of its record, if that is such a state, and no other operation settles or unsettles any
(`settled_of_effect`).
-/

namespace DurableQueue

namespace EntryState

/-- A state in which only the dispatch of an entry can end. -/
def isSettled : EntryState → Bool
  | processed | failed => true
  | _ => false

theorem ne_of_isSettled {state other : EntryState} (h : state.isSettled = true)
    (hother : other.isSettled = false) : other ≠ state := by
  rintro rfl
  rw [h] at hother
  cases hother

end EntryState

def StoreOp.isUpdate : StoreOp → Bool
  | .update _ _ => true
  | _ => false

/-- Whatever is not an update leaves an entry settled, or not, as it is. -/
theorem Entry.Fate.isSettled_iff {now : Timestamp} {op : StoreOp} {a : Except StoreError StoreAnswer}
    {e e' : Entry} (h : Fate now op a e e') (hop : op.isUpdate = false) {state : EntryState}
    (hstate : state.isSettled = true) : e'.state = state ↔ e.state = state := by
  have hopen : EntryState.inProcessing ≠ state := EntryState.ne_of_isSettled hstate rfl
  have hfree : EntryState.available ≠ state := EntryState.ne_of_isSettled hstate rfl
  cases h with
  | kept _ _ => rfl
  | claimed _ _ wanted _ =>
    have havailable := (Entry.isClaimableAt_iff.mp (Store.isWanted_iff.mp wanted).1).1
    exact iff_of_false hopen (havailable ▸ hfree)
  | resolved heq =>
    subst heq
    cases hop
  | @reaped policy _ _ _ _ _ stale _ _ =>
    have hclaimed := (Entry.isStaleClaim_iff.mp stale).1
    refine iff_of_false ?_ (hclaimed ▸ hopen)
    rcases policy.stateAfter_eq e.errorCount with hafter | hafter
    · exact EntryState.ne_of_isSettled hstate (by rw [Entry.reaped, hafter]; rfl)
    · exact EntryState.ne_of_isSettled hstate (by rw [Entry.reaped, hafter]; rfl)
  | released _ _ held _ _ =>
    have hclaimed := (Entry.isHeldBy_iff.mp held).1
    exact iff_of_false hfree (hclaimed ▸ hopen)

namespace Store

variable {s s' : Store} {op : StoreOp} {now : Timestamp} {a : Except StoreError StoreAnswer}
  {state : EntryState}

/-- How many entries, live and purged, are in a state. -/
def settled (s : Store) (state : EntryState) : Nat := s.stored.countP fun e => e.state == state

/-- How many entries an answered operation settles in a state. -/
def settles (state : EntryState) : StoreOp → Except StoreError StoreAnswer → Nat
  | .update _ next, .ok _ => if next.state = state then 1 else 0
  | _, _ => 0

theorem settles_of_not_isUpdate (hop : op.isUpdate = false) (a : Except StoreError StoreAnswer) :
    settles state op a = 0 := by
  cases op with
  | update claim next => cases hop
  | _ => rfl

/-- What is not an update settles nothing. -/
theorem settled_of_not_isUpdate (h : s.IsWellFormed) (he : Effect now s op a s')
    (hop : op.isUpdate = false) (hstate : state.isSettled = true) :
    s'.settled state = s.settled state := by
  rcases stored_of_effect h he with ⟨f, hperm, hfate⟩ | ⟨new, -, -, hperm⟩
  · rw [settled, settled, hperm.countP_eq, List.countP_map]
    refine List.countP_congr fun e he => ?_
    rw [Function.comp_apply, beq_iff_eq, beq_iff_eq]
    exact (hfate e he).isSettled_iff hop hstate
  · have hnew : ((Entry.ofNew ⟨s.lastId + 1⟩ new now).state == state) = false :=
      beq_eq_false_iff_ne.mpr (EntryState.ne_of_isSettled hstate rfl)
    rw [settled, settled, hperm.countP_eq, List.countP_cons_of_neg (by simp [hnew])]

/-- An update that is accepted settles one entry in the state of its record. -/
theorem settled_of_resolved (h : s.IsWellFormed) {claim next old : Entry}
    (found : s.liveEntry? claim.id = some old) (same : isSameClaim old claim = true)
    (move : old.state.canMoveTo next.state = true) (hstate : state.isSettled = true) :
    (s.replace (resolved old next now)).settled state =
      s.settled state + if next.state = state then 1 else 0 := by
  have hold : old ∈ s.stored := List.mem_append_left _ (List.mem_of_find?_eq_some found)
  have hid : old.id = claim.id := by simpa using List.find?_some found
  have hclaimed : (old.state == state) = false :=
    beq_eq_false_iff_ne.mpr
      (EntryState.ne_of_isSettled hstate (by rw [(isSameClaim_iff.mp same).1]; rfl))
  obtain ⟨f, hafter, hfate⟩ := stored_resolved h now found same move
  have hchanged : (f old).state = next.state := by
    have hfate := hfate old hold
    generalize f old = e at hfate ⊢
    cases hfate with
    | kept _ untaken => exact absurd (by simp [StoreOp.takeOuts, hid]) (untaken next.state)
    | resolved hop =>
      cases hop
      rfl
    | claimed hop | reaped hop | released hop => cases hop
  have hrest : ∀ e ∈ s.stored.erase old, f e = e := by
    intro e he
    have hnodup : s.stored.Nodup := h.distinct.of_map _
    obtain ⟨hne, hmem⟩ := hnodup.mem_erase_iff.mp he
    have hfate := hfate e hmem
    generalize f e = e' at hfate ⊢
    cases hfate with
    | kept _ _ => rfl
    | resolved hop _ hclaim =>
      cases hop
      exact absurd (h.eq_of_id_eq hmem hold (hclaim.symm.trans hid.symm)) hne
    | claimed hop | reaped hop | released hop => cases hop
  have hsplit := List.perm_cons_erase hold
  rw [settled, settled, hafter, (hsplit.map f).countP_eq, hsplit.countP_eq, List.map_cons,
    List.map_congr_left hrest, List.map_id'', List.countP_cons, List.countP_cons, hclaimed, hchanged]
  · simp [beq_iff_eq]
  · exact fun _ => rfl

/-- Every operation settles what it is said to settle. -/
theorem settled_of_effect (h : s.IsWellFormed) (he : Effect now s op a s')
    (hstate : state.isSettled = true) :
    s'.settled state = s.settled state + settles state op a := by
  cases hop : op.isUpdate with
  | false => rw [settled_of_not_isUpdate h he hop hstate, settles_of_not_isUpdate hop, Nat.add_zero]
  | true =>
    cases he with
    | failed e left =>
      cases op with
      | update claim next => rfl
      | _ => cases hop
    | resolved found same move => exact settled_of_resolved h found same move hstate
    | read hreading =>
      cases op with
      | update claim next => cases hreading
      | _ => cases hop
    | _ => cases hop

end Store

end DurableQueue
