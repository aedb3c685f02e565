import DurableQueue.Proofs.Store.Chronology

/-!
Claims that are left to those who hold them.

`StoreOp.IsNormal` is an operation by which nobody resolves a claim, takes one back or hands one back.
Whoever holds a claim does not notice such an operation (`Store.GoesOn`); a claim operation hands out
new claims beside the old ones (`Store.HandsOut`). Meanwhile a claim is resolved by its holder, and the
store accepts that (`resolves_of_held`).
-/

namespace DurableQueue

/-- An operation that leaves claims to those who hold them, and lets the next ones succeed. -/
def StoreOp.IsNormal : StoreOp → Prop
  | .update _ _ | .reap _ | .release _ | .failNext _ => False
  | _ => True

namespace Store

variable {s s' : Store} {op : StoreOp} {now : Timestamp} {id : EntryId} {e : Entry}

/-- How many failed attempts are booked for an entry; nought if there is no such entry. -/
def failures (s : Store) (id : EntryId) : Nat :=
  match s.lookup? id with
  | some e => e.errorCount.toNat
  | none => 0

theorem failures_eq (h : s.IsWellFormed) (he : e ∈ s.stored) : s.failures e.id = e.errorCount.toNat := by
  rw [failures, h.lookup?_eq_some_iff.mpr ⟨he, rfl⟩]

theorem failures_of_not_stored (h : s.IsWellFormed) (hnone : ∀ e ∈ s.stored, e.id ≠ id) :
    s.failures id = 0 := by
  unfold failures
  split
  · rename_i e hlookup
    obtain ⟨he, hid⟩ := h.lookup?_eq_some_iff.mp hlookup
    exact absurd hid (hnone e he)
  · rfl

/-- A store goes on without a change to what is claimed or settled, and books no failed attempt. -/
structure GoesOn (s s' : Store) : Prop where
  /-- Only entries that may be claimed change. -/
  keeps : ∀ e ∈ s.stored, e.state ≠ .available → e ∈ s'.stored
  failures : ∀ id, s'.failures id = s.failures id
  unfailing : s.failuresLeft = 0 → s'.failuresLeft = 0

theorem GoesOn.refl (s : Store) : s.GoesOn s := ⟨fun _ he _ => he, fun _ => rfl, id⟩

theorem GoesOn.keeps_claim (h : s.GoesOn s') (he : e ∈ s.stored) (hstate : e.state = .inProcessing) :
    e ∈ s'.stored :=
  h.keeps e he (by simp [hstate])

theorem GoesOn.trans {s'' : Store} (h : s.GoesOn s') (h' : s'.GoesOn s'') : s.GoesOn s'' where
  keeps e he hstate := h'.keeps e (h.keeps e he hstate) hstate
  failures id := (h'.failures id).trans (h.failures id)
  unfailing hleft := h'.unfailing (h.unfailing hleft)

theorem failuresLeft_apply (hop : op.IsNormal) (now : Timestamp) (hleft : s.failuresLeft = 0) :
    (s.apply op now).2.failuresLeft = 0 := by
  cases op with
  | update claimed next => exact hop.elim
  | reap p => exact hop.elim
  | release owner => exact hop.elim
  | failNext count => exact hop.elim
  | _ =>
    simp only [apply, append, claim, count, find, search, purge, guarded, hleft, Outcome.map]

/-- What a normal operation makes of an entry. -/
theorem eq_or_claimedBy_of_fate {a : Except StoreError StoreAnswer} {e' : Entry} (hop : op.IsNormal)
    (h : Entry.Fate now op a e e') :
    e' = e ∨ e.state = .available ∧ ∃ claimer, e' = e.claimedBy claimer now := by
  cases h with
  | kept _ _ => exact .inl rfl
  | claimed _ _ wanted _ =>
    exact .inr ⟨(Entry.isClaimableAt_iff.mp (isWanted_iff.mp wanted).1).1, _, rfl⟩
  | resolved heq | reaped heq | released heq =>
    subst heq
    exact hop.elim

theorem goesOn_apply (h : s.IsWellFormed) (hop : op.IsNormal) (now : Timestamp) :
    s.GoesOn (s.apply op now).2 := by
  have heffect := effect_apply s op now
  have h' := isWellFormed_of_effect h heffect
  refine ⟨fun e he hstate => ?_, fun id => ?_, failuresLeft_apply hop now⟩
  · obtain ⟨e', he', hfate⟩ := exists_fate h heffect he
    rcases eq_or_claimedBy_of_fate hop hfate with rfl | ⟨havailable, -⟩
    · exact he'
    · exact absurd havailable hstate
  · by_cases hold : ∃ e ∈ s.stored, e.id = id
    · obtain ⟨e, he, rfl⟩ := hold
      obtain ⟨e', he', hfate⟩ := exists_fate h heffect he
      rw [failures_eq h he, ← hfate.evolves.id, failures_eq h' he']
      rcases eq_or_claimedBy_of_fate hop hfate with rfl | ⟨-, claimer, rfl⟩ <;> rfl
    · have hnone : ∀ e ∈ s.stored, e.id ≠ id := fun e he hid => hold ⟨e, he, hid⟩
      rw [failures_of_not_stored h hnone]
      by_cases hnew : ∃ f ∈ (s.apply op now).2.stored, f.id = id
      · obtain ⟨f, hf, rfl⟩ := hnew
        rw [failures_eq h' hf]
        rcases exists_before h heffect hf with ⟨e, he, hfate⟩ | ⟨new, rfl⟩
        · exact absurd hfate.evolves.id.symm (hnone e he)
        · rfl
      · exact failures_of_not_stored h' fun f hf hid => hnew ⟨f, hf, hid⟩

/-- A store hands out claims of entries that nobody had claimed. -/
structure HandsOut (s : Store) (es : List Entry) (s' : Store) : Prop where
  goesOn : s.GoesOn s'
  stored : ∀ e ∈ es, e ∈ s'.stored ∧ e.state = .inProcessing
  unclaimed : ∀ e ∈ es, ∃ d ∈ s.stored, d.id = e.id ∧ d.state = .available
  distinct : (es.map Entry.id).Nodup

theorem handsOut_of_claim (h : s.IsWellFormed) {count : Nat} {claimer : NodeId}
    {owner : Option NodeId} {es : List Entry}
    (hanswer : (s.apply (.claim count claimer owner) now).1 = .ok (.entries es)) :
    s.HandsOut es (s.apply (.claim count claimer owner) now).2 := by
  have hnormal : (StoreOp.claim count claimer owner).IsNormal := trivial
  have hgoes := goesOn_apply h hnormal now
  have heffect := effect_apply s (.claim count claimer owner) now
  rw [hanswer] at heffect
  have htaken : ((s.live.filter (isWanted owner now)).take count).Sublist s.live :=
    (List.take_sublist _ _).trans List.filter_sublist
  have hes : es = ((s.live.filter (isWanted owner now)).take count).map (·.claimedBy claimer now) := by
    generalize (s.apply (.claim count claimer owner) now).2 = s' at heffect
    cases heffect with
    | read hreading => cases hreading
    | claimed => exact claimFirst_fst _ _ _ _ _
  refine ⟨hgoes, fun e he => ?_, fun e he => ?_, ?_⟩
  · obtain ⟨hmem, hstate, -⟩ := stored_of_mem_handsOut h heffect he
    exact ⟨hmem, hstate⟩
  · rw [hes] at he
    obtain ⟨d, hd, rfl⟩ := List.mem_map.mp he
    obtain ⟨hlive, hwanted⟩ := List.mem_filter.mp (List.mem_of_mem_take hd)
    exact ⟨d, List.mem_append_left _ hlive, rfl,
      (Entry.isClaimableAt_iff.mp (isWanted_iff.mp hwanted).1).1⟩
  · rw [hes, List.map_map]
    exact h.nodup_ids_live.sublist (htaken.map Entry.id)

/-- The stored entry is replaced by its resolution, and nothing else changes. -/
structure Resolves (s : Store) (claim next : Entry) (now : Timestamp) (s' : Store) : Prop where
  resolved : resolved claim next now ∈ s'.stored
  keeps : ∀ e ∈ s.stored, e.id ≠ claim.id → e ∈ s'.stored
  failures : ∀ id ≠ claim.id, s'.failures id = s.failures id
  unfailing : s'.failuresLeft = 0

/-- A claim that is still stored as it is can be resolved. -/
theorem resolves_of_held (h : s.IsWellFormed) (hleft : s.failuresLeft = 0) (he : e ∈ s.stored)
    (hstate : e.state = .inProcessing) {next : Entry}
    (hmove : EntryState.inProcessing.canMoveTo next.state = true) (now : Timestamp) :
    (s.update e next now).1 = .ok () ∧ s.Resolves e next now (s.update e next now).2 := by
  have hlive : e ∈ s.live := h.mem_live_of_not_isTerminal he (by rw [hstate]; rfl)
  have hfound : s.liveEntry? e.id = some e := by
    cases hfind : s.liveEntry? e.id with
    | none => simpa using List.find?_eq_none.mp hfind e hlive
    | some f =>
      have hf : f ∈ s.stored := List.mem_append_left _ (List.mem_of_find?_eq_some hfind)
      rw [h.eq_of_id_eq hf he (by simpa using List.find?_some hfind)]
  have hsame : isSameClaim e e = true := isSameClaim_iff.mpr ⟨hstate, rfl, rfl⟩
  have hupdate : s.update e next now = (.ok (), s.replace (resolved e next now)) := by
    simp only [update, guarded, hleft, hfound, hsame, hstate, hmove, Bool.not_true, Bool.false_eq_true,
      ↓reduceIte]
  rw [hupdate]
  have heffect : Effect now s (.update e next) (.ok .done) (s.replace (resolved e next now)) :=
    .resolved hfound hsame (hstate.symm ▸ hmove)
  have h' := isWellFormed_of_effect h heffect
  have hother : ∀ f ∈ s.stored, f.id ≠ e.id → f ∈ (s.replace (resolved e next now)).stored := by
    intro f hf hid
    obtain ⟨f', hf', hfate⟩ := exists_fate h heffect hf
    cases hfate with
    | kept _ _ => exact hf'
    | resolved hop _ hclaim =>
      cases hop
      exact absurd hclaim.symm hid
    | claimed hop | reaped hop | released hop => cases hop
  refine ⟨rfl, ?_, hother, fun id hid => ?_, hleft⟩
  · obtain ⟨e', he', hfate⟩ := exists_fate h heffect he
    cases hfate with
    | kept _ untaken => exact absurd (by simp [StoreOp.takeOuts]) (untaken next.state)
    | resolved hop =>
      cases hop
      exact he'
    | claimed hop | reaped hop | released hop => cases hop
  · by_cases hold : ∃ f ∈ s.stored, f.id = id
    · obtain ⟨f, hf, rfl⟩ := hold
      rw [failures_eq h hf, failures_eq h' (hother f hf hid)]
    · have hnone : ∀ f ∈ s.stored, f.id ≠ id := fun f hf hfid => hold ⟨f, hf, hfid⟩
      rw [failures_of_not_stored h hnone]
      refine failures_of_not_stored h' fun f hf hfid => ?_
      have hids : id ∈ (s.replace (resolved e next now)).stored.map Entry.id :=
        List.mem_map.mpr ⟨f, hf, hfid⟩
      rw [stored, List.map_append, ids_replace, ← List.map_append] at hids
      obtain ⟨g, hg, hgid⟩ := List.mem_map.mp hids
      exact hnone g hg hgid

end Store

end DurableQueue
