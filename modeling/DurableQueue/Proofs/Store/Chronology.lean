import DurableQueue.Proofs.Store.ClaimHistory
import DurableQueue.Proofs.Time.Order

/-!
Claims and times over whole runs.

Every claim that a store holds was handed out by some claim operation and has not changed since
(`handedOut_of_inProcessing`), and every entry was last changed at a reading of the clock
(`exists_reading`). Under a clock that never goes back the times of an entry therefore never go back
either (`updatedTime_mono`). `RefusesUpdate` says what becomes of an update whose claim is lost.
-/

namespace DurableQueue

/-- The claims that an answered operation handed out. -/
def StoreOp.handsOut : StoreOp → Except StoreError StoreAnswer → List Entry
  | .claim _ _ _, .ok (.entries es) => es
  | _, _ => []

namespace Entry.Fate

variable {now : Timestamp} {op : StoreOp} {a : Except StoreError StoreAnswer} {e e' : Entry}

/-- What changes an entry stamps it. -/
theorem eq_or_updatedTime_eq (h : Fate now op a e e') : e' = e ∨ e'.updatedTime = now := by
  cases h with
  | kept _ _ => exact .inl rfl
  | _ => exact .inr rfl

/-- Who is in processing was so before, or has just been handed out. -/
theorem eq_or_mem_handsOut (h : Fate now op a e e') (hs : e'.state = .inProcessing) :
    e' = e ∨ e' ∈ op.handsOut a := by
  cases h with
  | kept _ _ => exact .inl rfl
  | claimed hop ha wanted listed =>
    subst hop ha
    exact .inr listed
  | @resolved claim next hop ha hid same move =>
    have hnext : next.state = .inProcessing := hs
    rw [(Store.isSameClaim_iff.mp same).1, hnext] at move
    cases move
  | @reaped policy cutoff es hop ha hc stale listed only =>
    rcases policy.stateAfter_eq e.errorCount with h | h <;> simp [Entry.reaped, h] at hs
  | released hop ha held listed only => cases hs

end Entry.Fate

namespace Store

variable {s s' : Store} {op : StoreOp} {now : Timestamp} {a : Except StoreError StoreAnswer}
  {ops : List (StoreOp × Timestamp)} {c e f : Entry} {i j k : Nat}

/-- Every stored entry is what became of one, or was just appended. -/
theorem exists_before (h : s.IsWellFormed) (he : Effect now s op a s') (hmem : f ∈ s'.stored) :
    (∃ e ∈ s.stored, Entry.Fate now op a e f) ∨
      ∃ new, f = .ofNew ⟨s.lastId + 1⟩ new now := by
  rcases stored_of_effect h he with ⟨g, hs, hg⟩ | ⟨new, -, -, hs⟩
  · obtain ⟨e, hmem', rfl⟩ := List.mem_map.mp (hs.mem_iff.mp hmem)
    exact .inl ⟨e, hmem', hg e hmem'⟩
  · rcases List.mem_cons.mp (hs.mem_iff.mp hmem) with rfl | hmem'
    · exact .inr ⟨new, rfl⟩
    · obtain ⟨e', hmem'', hfate⟩ := exists_fate h he hmem'
      have heq : e' = f :=
        (isWellFormed_of_effect h he).eq_of_id_eq hmem'' hmem hfate.evolves.id
      exact .inl ⟨f, hmem', heq ▸ hfate⟩

/-- A claim that is handed out is stored as it is, stamped with the time. -/
theorem stored_of_mem_handsOut (h : s.IsWellFormed) (he : Effect now s op a s')
    (hc : c ∈ op.handsOut a) :
    c ∈ s'.stored ∧ c.state = .inProcessing ∧ c.updatedTime = now := by
  cases he with
  | claimed count claimer owner =>
    have hlist : c ∈ (claimFirst claimer owner now count s.live).1 := hc
    rw [claimFirst_fst] at hlist
    obtain ⟨e, htaken, rfl⟩ := List.mem_map.mp hlist
    refine ⟨List.mem_append_left _ ?_, rfl, rfl⟩
    rw [claimFirst_snd _ _ _ _ _ h.nodup_live]
    exact List.mem_map.mpr ⟨e, List.mem_of_mem_filter (List.mem_of_mem_take htaken), if_pos htaken⟩
  | failed e left => cases op <;> cases hc
  | read hr b left => cases op <;> first | cases hc | cases hr
  | _ => cases hc

/-- The store before the operation of a place of a run. -/
def stateAt (s : Store) (ops : List (StoreOp × Timestamp)) (i : Nat) : Store :=
  (s.run (ops.take i)).2

theorem isWellFormed_stateAt (h : s.IsWellFormed) (ops : List (StoreOp × Timestamp)) (i : Nat) :
    (s.stateAt ops i).IsWellFormed :=
  isWellFormed_run h _

theorem stateAt_succ (hi : ops[i]? = some (op, now)) :
    s.stateAt ops (i + 1) = ((s.stateAt ops i).apply op now).2 :=
  run_take_succ s hi

theorem stateAt_succ_of_none (hi : ops[i]? = none) : s.stateAt ops (i + 1) = s.stateAt ops i := by
  have hlen := List.getElem?_eq_none_iff.mp hi
  rw [stateAt, stateAt, List.take_of_length_le hlen, List.take_of_length_le (by omega)]

/-- The operation of a place leads from the store before it to the store after it. -/
theorem effect_stateAt (hi : ops[i]? = some (op, now)) :
    Effect now (s.stateAt ops i) op ((s.stateAt ops i).apply op now).1 (s.stateAt ops (i + 1)) := by
  rw [stateAt_succ hi]
  exact effect_apply _ _ _

theorem getElem?_events_of_getElem? (hi : ops[i]? = some (op, now)) :
    (s.events ops)[i]? = some (op, ((s.stateAt ops i).apply op now).1) := by
  rw [getElem?_events, hi]
  rfl

theorem exists_of_getElem?_events (hi : (s.events ops)[i]? = some (op, a)) :
    ∃ now, ops[i]? = some (op, now) ∧ a = ((s.stateAt ops i).apply op now).1 := by
  rw [getElem?_events] at hi
  obtain ⟨⟨op', now⟩, ho, heq⟩ := Option.map_eq_some_iff.mp hi
  obtain ⟨rfl, rfl⟩ := Prod.mk.inj heq
  exact ⟨now, ho, rfl⟩

/-- The event of this place handed out this claim. -/
def HandedOutAt (events : List (StoreOp × Except StoreError StoreAnswer)) (c : Entry) (i : Nat) :
    Prop :=
  ∃ op a, events[i]? = some (op, a) ∧ c ∈ op.handsOut a

theorem HandedOutAt.stored (h : s.IsWellFormed) (hi : HandedOutAt (s.events ops) c i) :
    c ∈ (s.stateAt ops (i + 1)).stored ∧ c.state = .inProcessing ∧
      ∃ op, ops[i]? = some (op, c.updatedTime) := by
  obtain ⟨op, a, he, hc⟩ := hi
  obtain ⟨now, ho, rfl⟩ := exists_of_getElem?_events he
  obtain ⟨hmem, hs, rfl⟩ :=
    stored_of_mem_handsOut (isWellFormed_stateAt h ops i) (effect_stateAt ho) hc
  exact ⟨hmem, hs, op, ho⟩

/-- A claim that is stored was stored at an earlier place already, or was handed out since. -/
theorem handedOut_of_inProcessing (h : s.IsWellFormed) (hij : i ≤ j)
    (he : e ∈ (s.stateAt ops j).stored) (hs : e.state = .inProcessing) :
    e ∈ (s.stateAt ops i).stored ∨ ∃ m, i ≤ m ∧ m < j ∧ HandedOutAt (s.events ops) e m := by
  induction hij with
  | refl => exact .inl he
  | @step j hij ih =>
    cases ho : ops[j]? with
    | none =>
      rw [stateAt_succ_of_none ho] at he
      exact (ih he).imp id fun ⟨m, him, hmj, hm⟩ => ⟨m, him, Nat.lt_succ_of_lt hmj, hm⟩
    | some o =>
      obtain ⟨op, now⟩ := o
      rcases exists_before (isWellFormed_stateAt h ops j) (effect_stateAt ho) he with
        ⟨e', he', hfate⟩ | ⟨new, rfl⟩
      · rcases hfate.eq_or_mem_handsOut hs with rfl | hout
        · exact (ih he').imp id fun ⟨m, him, hmj, hm⟩ => ⟨m, him, Nat.lt_succ_of_lt hmj, hm⟩
        · exact .inr ⟨j, hij, Nat.lt_succ_self j, op, _, getElem?_events_of_getElem? ho, hout⟩
      · cases hs

/-- Every stored entry was last changed at a reading of the clock. -/
theorem exists_reading (he : e ∈ (empty.stateAt ops i).stored) :
    ∃ n op, n < i ∧ ops[n]? = some (op, e.updatedTime) := by
  induction i generalizing e with
  | zero => cases he
  | succ i ih =>
    cases ho : ops[i]? with
    | none =>
      rw [stateAt_succ_of_none ho] at he
      obtain ⟨n, op, hn, hr⟩ := ih he
      exact ⟨n, op, Nat.lt_succ_of_lt hn, hr⟩
    | some o =>
      obtain ⟨op, now⟩ := o
      rcases exists_before (isWellFormed_stateAt isWellFormed_empty ops i) (effect_stateAt ho) he with
        ⟨e', he', hfate⟩ | ⟨new, rfl⟩
      · rcases hfate.eq_or_updatedTime_eq with rfl | rfl
        · obtain ⟨n, op, hn, hr⟩ := ih he'
          exact ⟨n, op, Nat.lt_succ_of_lt hn, hr⟩
        · exact ⟨i, op, Nat.lt_succ_self i, ho⟩
      · exact ⟨i, op, Nat.lt_succ_self i, ho⟩

/-- The clock never goes back from one operation to the next. -/
def Chronological (ops : List (StoreOp × Timestamp)) : Prop :=
  (ops.map Prod.snd).Pairwise (· ≤ ·)

theorem Chronological.le (hc : Chronological ops) {op op' : StoreOp} {t t' : Timestamp}
    (hij : i ≤ j) (hi : ops[i]? = some (op, t)) (hj : ops[j]? = some (op', t')) : t ≤ t' := by
  rcases Nat.eq_or_lt_of_le hij with rfl | hlt
  · rw [hi] at hj
    cases hj
    exact le_refl t
  · obtain ⟨hi', hi⟩ := List.getElem?_eq_some_iff.mp hi
    obtain ⟨hj', hj⟩ := List.getElem?_eq_some_iff.mp hj
    have h := List.pairwise_iff_getElem.mp hc i j (by simpa using hi') (by simpa using hj') hlt
    simpa [hi, hj] using h

/-- No stored entry was changed later than now. -/
theorem updatedTime_le (hc : Chronological ops) (hi : ops[i]? = some (op, now))
    (he : e ∈ (empty.stateAt ops i).stored) : e.updatedTime ≤ now := by
  obtain ⟨n, op', hn, hr⟩ := exists_reading he
  exact hc.le (Nat.le_of_lt hn) hr hi

/-- The entry of a number at a later place was changed at the same time or later. -/
theorem exists_later (hc : Chronological ops) (hij : i ≤ j)
    (he : e ∈ (empty.stateAt ops i).stored) :
    ∃ f ∈ (empty.stateAt ops j).stored, f.id = e.id ∧ e.updatedTime ≤ f.updatedTime := by
  induction hij with
  | refl => exact ⟨e, he, rfl, le_refl _⟩
  | @step j hij ih =>
    obtain ⟨f, hf, hid, hle⟩ := ih
    cases ho : ops[j]? with
    | none => exact ⟨f, by rwa [stateAt_succ_of_none ho], hid, hle⟩
    | some o =>
      obtain ⟨op, now⟩ := o
      obtain ⟨f', hf', hfate⟩ :=
        exists_fate (isWellFormed_stateAt isWellFormed_empty ops j) (effect_stateAt ho) hf
      refine ⟨f', hf', hfate.evolves.id.trans hid, ?_⟩
      rcases hfate.eq_or_updatedTime_eq with rfl | htime
      · exact hle
      · rw [htime]
        exact le_trans hle (updatedTime_le hc ho hf)

theorem updatedTime_mono (hc : Chronological ops) (hij : i ≤ j)
    (he : e ∈ (empty.stateAt ops i).stored) (hf : f ∈ (empty.stateAt ops j).stored)
    (hid : f.id = e.id) : e.updatedTime ≤ f.updatedTime := by
  obtain ⟨f', hf', hid', hle⟩ := exists_later hc hij he
  have heq := (isWellFormed_stateAt isWellFormed_empty ops j).eq_of_id_eq hf hf' (hid.trans hid'.symm)
  rwa [heq]

/-- An update whose claim is lost: it is refused, because the entry was modified or, once it is
purged, because there is none, and it changes no entry. Only an injected failure comes before the
refusal. -/
structure RefusesUpdate (s : Store) (claim next : Entry) (now : Timestamp) : Prop where
  answer : (s.apply (.update claim next) now).1 = .error
    (if s.failuresLeft ≠ 0 then .injected
      else if (s.liveEntry? claim.id).isSome then .modifiedConcurrently claim.id
      else .noEntry claim.id)
  purged : s.liveEntry? claim.id = none → ∃ e ∈ s.history, e.id = claim.id
  live : (s.apply (.update claim next) now).2.live = s.live
  history : (s.apply (.update claim next) now).2.history = s.history
  lastId : (s.apply (.update claim next) now).2.lastId = s.lastId

/-- A claim is lost when the stored entry is another one. -/
theorem refusesUpdate_of_lost (h : s.IsWellFormed) {claim : Entry} (he : e ∈ s.stored)
    (hid : e.id = claim.id) (hlost : isSameClaim e claim = false) (next : Entry) (now : Timestamp) :
    s.RefusesUpdate claim next now := by
  have hstored : ∀ f, s.liveEntry? claim.id = some f → isSameClaim f claim = false := by
    intro f hf
    have hfid : f.id = claim.id := by simpa using List.find?_some hf
    have hmem : f ∈ s.stored := List.mem_append_left _ (List.mem_of_find?_eq_some hf)
    rw [h.eq_of_id_eq hmem he (hfid.trans hid.symm)]
    exact hlost
  have hpurged : s.liveEntry? claim.id = none → ∃ e ∈ s.history, e.id = claim.id := by
    intro hnone
    rcases List.mem_append.mp he with hlive | hhistory
    · exact absurd (List.find?_eq_none.mp hnone e hlive) (by simp [hid])
    · exact ⟨e, hhistory, hid⟩
  have happly : s.apply (.update claim next) now = Outcome.map (fun _ => .done) (s.update claim next now) :=
    rfl
  unfold update guarded at happly
  cases hleft : s.failuresLeft with
  | succ n =>
    simp only [hleft, Outcome.map] at happly
    exact ⟨by rw [happly, hleft]; rfl, hpurged, by rw [happly], by rw [happly], by rw [happly]⟩
  | zero =>
    cases hfind : s.liveEntry? claim.id with
    | none =>
      simp only [hleft, hfind, Outcome.map] at happly
      exact ⟨by rw [happly, hleft, hfind]; rfl, hpurged, by rw [happly], by rw [happly], by rw [happly]⟩
    | some f =>
      simp only [hleft, hfind, hstored f hfind, Outcome.map, Bool.not_false, ↓reduceIte] at happly
      exact ⟨by rw [happly, hleft, hfind]; rfl, hpurged, by rw [happly], by rw [happly], by rw [happly]⟩

end Store

end DurableQueue
