import DurableQueue.Proofs.Store.Chronology

/-!
How often a claim can be used.

A claim is known by its owner and its time alone. Once its entry has been taken out of processing,
an update with it is therefore refused unless the same node has claimed the entry again at the very
same reading of the clock (`spent_claim_refused`). While the clock stands still, that happens: one
claim then resolves its entry twice (`claim_spent_twice`).
-/

namespace DurableQueue.Store

variable {ops : List (StoreOp × Timestamp)} {i j k : Nat} {c next : Entry} {t : EntryState}
  {now : Timestamp}

/-- Once an entry has left processing, the next claim of it that is stored was handed out since. -/
theorem handedOut_since_takenOut {e : Entry} {id : EntryId}
    (hj : TakenOutAt (empty.events ops) id t j) (hjk : j < k)
    (he : e ∈ (empty.stateAt ops k).stored) (hid : e.id = id) (hs : e.state = .inProcessing) :
    ∃ m, j < m ∧ m < k ∧ HandedOutAt (empty.events ops) e m := by
  obtain ⟨-, hphase, ht⟩ := (takenOutAt_iff isWellFormed_empty).mp hj
  rcases handedOut_of_inProcessing isWellFormed_empty (Nat.succ_le_of_lt hjk) he hs with
    hmem | ⟨m, hjm, hmk, hm⟩
  · have hsame : (empty.stateAt ops (j + 1)).phase id = some .inProcessing :=
      (phase_eq_some_iff (isWellFormed_stateAt isWellFormed_empty ops (j + 1))).mpr
        ⟨e, hmem, hid, hs⟩
    rw [show (empty.stateAt ops (j + 1)).phase id = some t from hphase] at hsame
    exact absurd (Option.some.inj hsame) ht
  · exact ⟨m, hjm, hmk, hm⟩

/-- The clock shows one time from a claim to a later one that carries the same time. -/
theorem reading_eq_of_updatedTime_eq (hc : Chronological ops) {c' : Entry} {m n : Nat} {op : StoreOp}
    {r : Timestamp} (hi : HandedOutAt (empty.events ops) c i)
    (hm : HandedOutAt (empty.events ops) c' m) (htime : c'.updatedTime = c.updatedTime) (hin : i ≤ n)
    (hnm : n ≤ m) (hn : ops[n]? = some (op, r)) : r = c.updatedTime := by
  obtain ⟨-, -, _, hfirst⟩ := hi.stored isWellFormed_empty
  obtain ⟨-, -, _, hlast⟩ := hm.stored isWellFormed_empty
  exact le_antisymm (htime ▸ hc.le hnm hn hlast) (hc.le hin hfirst hn)

/-- Between two places the entry of a claim, which was handed out at place `i`, was handed out again
to the same node, and from the one claim to the other the clock stood still. -/
def HandedOutAgain (ops : List (StoreOp × Timestamp)) (c : Entry) (i j k : Nat) : Prop :=
  ∃ m c', j < m ∧ m < k ∧ HandedOutAt (empty.events ops) c' m ∧ c'.id = c.id ∧
    c'.processingOwner = c.processingOwner ∧
    ∀ n op r, i ≤ n → n ≤ m → ops[n]? = some (op, r) → r = c.updatedTime

/-- A claim whose entry was taken out of processing is lost, unless the entry was handed out
again. -/
theorem refusesUpdate_of_takenOut (hc : Chronological ops)
    (hi : HandedOutAt (empty.events ops) c i) (hij : i < j)
    (hj : TakenOutAt (empty.events ops) c.id t j) (hjk : j < k) (next : Entry) (now : Timestamp) :
    (empty.stateAt ops k).RefusesUpdate c next now ∨ HandedOutAgain ops c i j k := by
  obtain ⟨hstored, -, -⟩ := hi.stored isWellFormed_empty
  obtain ⟨e, he, hid, -⟩ := exists_later hc (Nat.succ_le_of_lt (Nat.lt_trans hij hjk)) hstored
  cases hsame : isSameClaim e c with
  | false =>
    exact .inl (refusesUpdate_of_lost (isWellFormed_stateAt isWellFormed_empty ops k) he hid hsame
      next now)
  | true =>
    obtain ⟨hs, howner, htime⟩ := isSameClaim_iff.mp hsame
    obtain ⟨m, hjm, hmk, hm⟩ := handedOut_since_takenOut hj hjk he hid hs
    refine .inr ⟨m, e, hjm, hmk, hm, hid, howner, ?_⟩
    intro n op r hin hnm hn
    exact reading_eq_of_updatedTime_eq hc hi hm htime hin hnm hn

theorem RefusesUpdate.not_ok {s : Store} (h : s.RefusesUpdate c next now) :
    (s.apply (.update c next) now).1 ≠ .ok .done := by
  rw [h.answer]
  simp

/-- A claim is single-use as long as its entry is not handed out again to the same node while the
clock stands still: at most one update with it succeeds, and after its entry was taken out of
processing, by whatever operation, every update with it is refused and changes nothing. -/
theorem spent_claim_refused (hc : Chronological ops) (hi : HandedOutAt (empty.events ops) c i) :
    (∀ j k next next', i < j → j < k →
      (empty.events ops)[j]? = some (.update c next, .ok .done) →
      (empty.events ops)[k]? = some (.update c next', .ok .done) → HandedOutAgain ops c i j k) ∧
    ∀ j k t, i < j → j < k → TakenOutAt (empty.events ops) c.id t j →
      (∀ next now, (empty.stateAt ops k).RefusesUpdate c next now) ∨ HandedOutAgain ops c i j k := by
  constructor
  · intro j k next next' hij hjk hj hk
    have hout : TakenOutAt (empty.events ops) c.id next.state j :=
      ⟨_, _, hj, List.mem_singleton.mpr rfl⟩
    obtain ⟨now, -, hanswer⟩ := exists_of_getElem?_events hk
    rcases refusesUpdate_of_takenOut hc hi hij hout hjk next' now with h | h
    · exact absurd hanswer.symm h.not_ok
    · exact h
  · intro j k t hij hjk hj
    by_cases hagain : HandedOutAgain ops c i j k
    · exact .inr hagain
    · exact .inl fun next now =>
        (refusesUpdate_of_takenOut hc hi hij hj hjk next now).resolve_right hagain

/-- A claim is handed back, the same node claims the entry again later, and then comes an update
with the first claim. -/
def handedBackRun : List (StoreOp × Timestamp) :=
  [(.append ⟨⟨"order", []⟩, ⟨"node"⟩, .none⟩, .epoch), (.claim 1 ⟨"node"⟩ none, .epoch),
   (.release ⟨"node"⟩, .latest), (.claim 1 ⟨"node"⟩ none, .latest),
   (.update firstClaim { firstClaim with state := .processed }, .latest)]

theorem spent_claim_refused_handedBackRun :
    Chronological handedBackRun ∧ HandedOutAt (empty.events handedBackRun) firstClaim 1 ∧
      TakenOutAt (empty.events handedBackRun) firstClaim.id .available 2 ∧
      (empty.stateAt handedBackRun 4).RefusesUpdate firstClaim
        { firstClaim with state := .processed } .latest := by
  have hc : Chronological handedBackRun := by
    rw [Chronological]
    decide
  have hi : HandedOutAt (empty.events handedBackRun) firstClaim 1 := ⟨_, _, rfl, by decide⟩
  have hj : TakenOutAt (empty.events handedBackRun) firstClaim.id .available 2 :=
    ⟨_, _, rfl, by decide⟩
  refine ⟨hc, hi, hj, ?_⟩
  rcases (spent_claim_refused hc hi).2 2 4 _ (by decide) (by decide) hj with
    h | ⟨m, c', hm, -, -, -, -, hstill⟩
  · exact h _ _
  · have hmoved : Timestamp.latest = Timestamp.epoch :=
      hstill 2 _ _ (by decide) (Nat.le_of_lt hm) rfl
    cases hmoved

/-- A claim is spent on a retry that is due at once, the same node claims the entry again before the
clock moves, and then comes an update with the first claim. -/
def stillRun : List (StoreOp × Timestamp) :=
  [(.append ⟨⟨"order", []⟩, ⟨"node"⟩, .none⟩, .epoch), (.claim 1 ⟨"node"⟩ none, .epoch),
   (.update firstClaim { firstClaim with state := .available, errorCount := 1 }, .epoch),
   (.claim 1 ⟨"node"⟩ none, .epoch),
   (.update firstClaim { firstClaim with state := .processed }, .epoch)]

/-- One claim resolves its entry twice, the second time in the place of the claim that was handed
out after it. -/
theorem claim_spent_twice :
    Chronological stillRun ∧ HandedOutAt (empty.events stillRun) firstClaim 1 ∧
      (empty.events stillRun)[2]? = some (.update firstClaim
        { firstClaim with state := .available, errorCount := 1 }, .ok .done) ∧
      (∃ c, c ≠ firstClaim ∧ HandedOutAt (empty.events stillRun) c 3) ∧
      (empty.events stillRun)[4]? =
        some (.update firstClaim { firstClaim with state := .processed }, .ok .done) := by
  refine ⟨?_, ⟨_, _, rfl, by decide⟩, rfl, ?_, rfl⟩
  · rw [Chronological]
    decide
  · exact ⟨{ firstClaim with errorCount := 1 }, by decide, _, _, rfl, by decide⟩

end DurableQueue.Store
