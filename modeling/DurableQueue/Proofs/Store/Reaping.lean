import DurableQueue.Proofs.Store.Chronology

/-!
Recovery of orphaned claims.

A reap takes back exactly the claims that are older than its policy allows (`reap_eq`,
`takenBack_reaped`), and nothing is left for a second one. Since a claim that is taken back is older
than the time of the reap, and an entry never again carries an earlier time, no update with that
claim, or with any before it, succeeds later (`orphans_recovered`).
-/

namespace DurableQueue

/-- What taking back its claim makes of an entry. -/
structure Entry.TakenBack (p : ReapPolicy) (now : Timestamp) (e e' : Entry) : Prop where
  id : e'.id = e.id
  payload : e'.payload = e.payload
  creatingOwner : e'.creatingOwner = e.creatingOwner
  createdTime : e'.createdTime = e.createdTime
  searchKeys : e'.searchKeys = e.searchKeys
  errorCount : e'.errorCount.toNat =
    if p.penalize then min (e.errorCount.toNat + 1) (UInt32.size - 1) else e.errorCount.toNat
  state : e'.state = if e'.errorCount < p.maxFailureRetries then .available else .reaped
  processingOwner : e'.processingOwner = none
  updatedTime : e'.updatedTime = now
  nextAvailableTime : e'.nextAvailableTime = now

theorem Entry.takenBack_reaped (p : ReapPolicy) (now : Timestamp) (e : Entry) :
    e.TakenBack p now (e.reaped p now) where
  id := rfl
  payload := rfl
  creatingOwner := rfl
  createdTime := rfl
  searchKeys := rfl
  errorCount := by
    simp only [Entry.reaped, ReapPolicy.countAfter]
    split
    · exact toNat_countFailure _
    · rfl
  state := rfl
  processingOwner := rfl
  updatedTime := rfl
  nextAvailableTime := rfl

theorem ReapPolicy.cutoff_le {p : ReapPolicy} {now cutoff : Timestamp}
    (h : p.cutoff now = .ok cutoff) : cutoff ≤ now := by
  unfold ReapPolicy.cutoff at h
  split at h
  · split at h
    · rename_i t ht
      cases h
      exact Timestamp.minus?_le ht
    · cases h
  · cases h

namespace Store

variable {s : Store} {policy : ReapPolicy} {t cutoff : Timestamp}
  {ops : List (StoreOp × Timestamp)} {i j k : Nat} {c e : Entry}

theorem reap_of_injected (hleft : s.failuresLeft ≠ 0) (policy : ReapPolicy) (t : Timestamp) :
    s.apply (.reap policy) t =
      (.error .injected, { s with failuresLeft := s.failuresLeft - 1 }) := by
  obtain ⟨n, hn⟩ := Nat.exists_eq_succ_of_ne_zero hleft
  simp [apply, reap, guarded, hn, Outcome.map]

theorem reap_eq (hleft : s.failuresLeft = 0) (hcutoff : policy.cutoff t = .ok cutoff) :
    s.apply (.reap policy) t =
      (.ok (.entries ((s.live.filter (·.isStaleClaim cutoff)).map (·.reaped policy t))),
        (s.changeWhere (·.isStaleClaim cutoff) (·.reaped policy t)).2) := by
  simp [apply, reap, guarded, hleft, hcutoff, Outcome.map, changeWhere]

/-- Whatever is taken back is no claim any more. -/
theorem isStaleClaim_reaped (e : Entry) (policy : ReapPolicy) (t cutoff : Timestamp) :
    (e.reaped policy t).isStaleClaim cutoff = false := by
  rcases policy.stateAfter_eq e.errorCount with h | h <;> simp [Entry.isStaleClaim, Entry.reaped, h]

theorem mem_live_changeWhere_iff {test : Entry → Bool} {change : Entry → Entry} :
    e ∈ (s.changeWhere test change).2.live ↔
      e ∈ (s.live.filter test).map change ∨ (e ∈ s.live ∧ test e = false) := by
  simp only [changeWhere, List.mem_map, List.mem_filter]
  constructor
  · rintro ⟨f, hf, rfl⟩
    cases ht : test f with
    | true => exact .inl ⟨f, ⟨hf, ht⟩, by simp⟩
    | false => exact .inr ⟨by simpa using hf, by simpa using ht⟩
  · rintro (⟨f, ⟨hf, ht⟩, rfl⟩ | ⟨he, ht⟩)
    · exact ⟨f, hf, by simp [ht]⟩
    · exact ⟨e, he, by simp [ht]⟩

theorem changeWhere_of_none {test : Entry → Bool} {change : Entry → Entry}
    (h : ∀ e ∈ s.live, test e = false) : s.changeWhere test change = ([], s) := by
  have hfilter : s.live.filter test = [] := List.filter_eq_nil_iff.mpr fun e he => by simp [h e he]
  have hmap : (s.live.map fun e => if test e then change e else e) = s.live :=
    (List.map_congr_left fun e he => by simp [h e he]).trans (List.map_id _)
  simp only [changeWhere, hfilter, hmap, List.map_nil]

/-- After a reap nothing is left for another one at the same time. -/
theorem reap_again (hleft : s.failuresLeft = 0) (hcutoff : policy.cutoff t = .ok cutoff) :
    let s' := (s.changeWhere (·.isStaleClaim cutoff) (·.reaped policy t)).2
    s'.apply (.reap policy) t = (.ok (.entries []), s') := by
  intro s'
  have hnone : ∀ e ∈ s'.live, e.isStaleClaim cutoff = false := by
    intro e he
    rcases mem_live_changeWhere_iff.mp he with hreaped | ⟨-, ht⟩
    · obtain ⟨f, -, rfl⟩ := List.mem_map.mp hreaped
      exact isStaleClaim_reaped f policy t cutoff
    · exact ht
  have hchange : s'.changeWhere (·.isStaleClaim cutoff) (·.reaped policy t) = ([], s') :=
    changeWhere_of_none hnone
  rw [reap_eq (s := s') hleft hcutoff]
  exact congrArg (fun r : List Entry × Store => (Except.ok (StoreAnswer.entries r.1), r.2)) hchange

/-- What a reap at a time does with a store, where `reaped` are the entries that it answers. -/
structure Recovers (s : Store) (policy : ReapPolicy) (t cutoff : Timestamp) (reaped : List Entry)
    (s' : Store) : Prop where
  answer : s.apply (.reap policy) t = (.ok (.entries reaped), s')
  orphans : List.Forall₂ (Entry.TakenBack policy t)
    (s.live.filter fun e => e.state = .inProcessing ∧ e.updatedTime < cutoff) reaped
  ascending : (reaped.map Entry.id).Pairwise (· < ·)
  others : ∀ e, e ∈ s'.live ↔
    e ∈ reaped ∨ (e ∈ s.live ∧ ¬ (e.state = .inProcessing ∧ e.updatedTime < cutoff))
  numbers : s'.live.map Entry.id = s.live.map Entry.id
  history : s'.history = s.history
  lastId : s'.lastId = s.lastId
  again : s'.apply (.reap policy) t = (.ok (.entries []), s')

theorem recovers_reap (h : s.IsWellFormed) (hleft : s.failuresLeft = 0)
    (hcutoff : policy.cutoff t = .ok cutoff) :
    s.Recovers policy t cutoff
      ((s.live.filter (·.isStaleClaim cutoff)).map (·.reaped policy t))
      (s.apply (.reap policy) t).2 := by
  have hafter : (s.apply (.reap policy) t).2 =
      (s.changeWhere (·.isStaleClaim cutoff) (·.reaped policy t)).2 := by
    rw [reap_eq hleft hcutoff]
  rw [hafter]
  exact {
    answer := reap_eq hleft hcutoff
    orphans := by
      rw [List.forall₂_map_right_iff]
      exact List.forall₂_same.mpr fun e _ => e.takenBack_reaped policy t
    ascending := by
      rw [List.map_map]
      exact h.ascending.sublist (List.filter_sublist.map Entry.id)
    others := by
      intro e
      rw [mem_live_changeWhere_iff, ← Bool.not_eq_true, Entry.isStaleClaim_iff]
    numbers := ids_changeWhere _ _ fun _ => rfl
    history := rfl
    lastId := rfl
    again := reap_again hleft hcutoff }

/-- No claim that was handed out before its entry was taken back succeeds afterwards. -/
theorem refusesUpdate_of_takenBack (hc : Chronological ops)
    (hcutoff : policy.cutoff t = .ok cutoff) (he : e ∈ (empty.stateAt ops j).stored)
    (hstale : e.isStaleClaim cutoff = true)
    (hnew : e.reaped policy t ∈ (empty.stateAt ops (j + 1)).stored) (hij : i < j)
    (hi : HandedOutAt (empty.events ops) c i) (hid : c.id = e.id) (hjk : j < k) (next : Entry)
    (now : Timestamp) : (empty.stateAt ops k).RefusesUpdate c next now := by
  obtain ⟨hstored, -, -⟩ := hi.stored isWellFormed_empty
  obtain ⟨f, hf, hfid, hle⟩ := exists_later hc hjk hnew
  have hbefore : c.updatedTime ≤ e.updatedTime := updatedTime_mono hc hij hstored he hid.symm
  have hold : e.updatedTime < cutoff := (Entry.isStaleClaim_iff.mp hstale).2
  have hlater : c.updatedTime < f.updatedTime :=
    calc c.updatedTime ≤ e.updatedTime := hbefore
      _ < cutoff := hold
      _ ≤ t := ReapPolicy.cutoff_le hcutoff
      _ ≤ f.updatedTime := hle
  have hlost : isSameClaim f c = false := by
    rw [Bool.eq_false_iff]
    intro hsame
    exact ne_of_gt hlater (isSameClaim_iff.mp hsame).2.2
  exact refusesUpdate_of_lost (isWellFormed_stateAt isWellFormed_empty ops k) hf
    (hfid.trans hid.symm) hlost next now

/-- A reap takes back, in the order of their numbers, exactly the claims older than its cutoff, and
leaves all else as it was; a second reap at the same time finds nothing. Each of these claims had
been handed out, and whatever happens afterwards, every update with it, or with an earlier claim of
the same entry, is refused. Where a failure is injected, a reap does nothing. -/
theorem orphans_recovered (hc : Chronological ops) (hj : ops[j]? = some (.reap policy, t))
    (hcutoff : policy.cutoff t = .ok cutoff) :
    ((empty.stateAt ops j).failuresLeft ≠ 0 →
      (empty.stateAt ops j).apply (.reap policy) t = (.error .injected,
        { empty.stateAt ops j with failuresLeft := (empty.stateAt ops j).failuresLeft - 1 })) ∧
    ((empty.stateAt ops j).failuresLeft = 0 → ∃ reaped,
      (empty.stateAt ops j).Recovers policy t cutoff reaped (empty.stateAt ops (j + 1)) ∧
      (∀ e ∈ (empty.stateAt ops j).live, e.state = .inProcessing → e.updatedTime < cutoff →
        ∃ i < j, HandedOutAt (empty.events ops) e i) ∧
      ∀ c i, i < j → HandedOutAt (empty.events ops) c i → c.id ∈ reaped.map Entry.id →
        ∀ k next now, j < k → (empty.stateAt ops k).RefusesUpdate c next now) := by
  have hwf := isWellFormed_stateAt isWellFormed_empty ops j
  refine ⟨fun hleft => reap_of_injected hleft policy t, fun hleft => ?_⟩
  have hrecovers := recovers_reap hwf hleft hcutoff
  rw [← stateAt_succ hj] at hrecovers
  refine ⟨_, hrecovers, ?_, ?_⟩
  · intro e hlive hs _
    rcases handedOut_of_inProcessing isWellFormed_empty (Nat.zero_le j)
      (List.mem_append_left _ hlive) hs with h | ⟨m, -, hm, hout⟩
    · cases h
    · exact ⟨m, hm, hout⟩
  · intro c i hij hi hid k next now hjk
    obtain ⟨f, hf, hfid⟩ := List.mem_map.mp hid
    have hnew := (hrecovers.others f).mpr (.inl hf)
    obtain ⟨e, he, rfl⟩ := List.mem_map.mp hf
    obtain ⟨hlive, hstale⟩ := List.mem_filter.mp he
    exact refusesUpdate_of_takenBack hc hcutoff (List.mem_append_left _ hlive) hstale
      (List.mem_append_left _ hnew) hij hi hfid.symm hjk next now

/-- Claims older than half a minute are taken back, without a penalty. -/
def halfMinute : ReapPolicy := ⟨.ofSeconds 30, 3, false⟩

def oneMinute : Timestamp := (Timestamp.ofParts? 60 0).getD .epoch

/-- A claim is taken back and handed out again to the same node, and then comes the late update. -/
def lateRun : List (StoreOp × Timestamp) :=
  [(.append ⟨⟨"order", []⟩, ⟨"node"⟩, .none⟩, .epoch), (.claim 1 ⟨"node"⟩ none, .epoch),
   (.reap halfMinute, oneMinute), (.claim 1 ⟨"node"⟩ none, oneMinute),
   (.update firstClaim { firstClaim with state := .processed }, oneMinute)]

theorem orphans_recovered_lateRun :
    Chronological lateRun ∧
      (∃ cutoff, halfMinute.cutoff oneMinute = .ok cutoff) ∧
      (∃ e ∈ (empty.stateAt lateRun 4).live, e.isHeldBy ⟨"node"⟩ = true) ∧
      (empty.stateAt lateRun 4).RefusesUpdate firstClaim { firstClaim with state := .processed }
        oneMinute := by
  have hc : Chronological lateRun := by
    rw [Chronological]
    decide
  have hcutoff : halfMinute.cutoff oneMinute =
      .ok ⟨30, 0, by decide, by decide, by decide⟩ := rfl
  obtain ⟨-, hreap⟩ := orphans_recovered (j := 2) hc rfl hcutoff
  obtain ⟨reaped, hrecovers, -, hrefused⟩ := hreap rfl
  have hanswer := congrArg Prod.fst hrecovers.answer
  have hreaped : reaped = [firstClaim.reaped halfMinute oneMinute] := by
    injection hanswer with hanswer
    injection hanswer with hanswer
    exact hanswer.symm
  refine ⟨hc, ⟨_, hcutoff⟩, by decide, ?_⟩
  refine hrefused firstClaim 1 (by decide) ⟨_, _, rfl, by decide⟩ ?_ 4 _ _ (by decide)
  rw [hreaped]
  exact List.mem_singleton.mpr rfl

end Store

end DurableQueue
